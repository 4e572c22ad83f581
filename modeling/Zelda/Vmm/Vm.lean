import Zelda.Lib.Bytes
import Zelda.Lib.BinarySearch
import Zelda.Lib.BubbleSort
import Zelda.Vmm.Devices
/-!
# The virtual machine and its physical address space

One running hart, its memories and devices, and the region table that routes a
guest-physical access to one of them.
-/

namespace Zelda.Vmm

open Zelda.Lib.Bytes
open Zelda.Lib.BinarySearch
open Zelda.Lib

/-! ## State -/

/-- `struct address_reservation_item`. -/
structure ReservationItem where
  addr : Word
  valid : Bool
  hartid : Byte
  deriving DecidableEq, Repr

abbrev MAX_RESERVATION_ITEMS : Nat := 16

instance : NeZero MAX_RESERVATION_ITEMS :=
  ⟨by decide⟩

/-- The virtual machine with every global the emulator keeps beside it. -/
structure Vm where
  hart : Hart
  /-- `pmr_ops`, the occupied part. -/
  pmrOps : List PmRegion
  mainMem : HostMem
  bootrom : HostMem
  clint : Clint
  plic : Plic
  uart : Uart
  reservations : Fin MAX_RESERVATION_ITEMS → ReservationItem
  nextPointer : Fin MAX_RESERVATION_ITEMS
  pollCountdown : Word
  ticksPerTranslationUnit : DWord
  /-- What each successive poll of the host terminal will find waiting. -/
  hostInput : List (List Byte)
  hostOutput : List Byte

/-- The ways control leaves vmm code without returning to its caller. -/
inductive Abort
  /-- `do_trap`: a guest trap has been set up and the vmm is entered afresh. -/
  | trap
  /-- `exit`, from an assertion or a device. -/
  | exit
  /-- Host memory outside every allocation was touched. -/
  | hostFault
  deriving DecidableEq, Repr

abbrev VmM := EStateM Abort Vm

def modifyHart (f : Hart → Hart) : VmM Unit :=
  modify fun vm => { vm with hart := f vm.hart }

/-- `ASSERT`. -/
def assert (condition : Bool) : VmM Unit :=
  if condition then pure () else throw .exit

/-! ## Region table -/

/-- `pm_region_operation_compare` in the debug build; `none` is a failed assertion. -/
def pmRegionOperationCompare (pmr1 pmr2 : PmRegion) : Option Int :=
  if ¬pmr1.addrLow ≤ pmr1.addrHigh then none
  else if ¬pmr2.addrLow ≤ pmr2.addrHigh then none
  else if pmr1.addrHigh ≤ pmr2.addrLow then some (-1)
  else if pmr2.addrHigh ≤ pmr1.addrLow then some 1
  else if (pmr1.addrLow ≤ pmr2.addrLow ∧ pmr2.addrHigh ≤ pmr1.addrHigh) ∨
      (pmr2.addrLow ≤ pmr1.addrLow ∧ pmr1.addrHigh ≤ pmr2.addrHigh) then some 0
  else none

/--
`search_pm_region_callback`: the region of a guest-physical address, if any.
The one-byte target wraps at the top of the address space, which trips the
comparator's assertion.
-/
def searchPmRegionCallback (pmrOps : List PmRegion) (guestPa : Word) : Option (Option PmRegion) :=
  let target : PmRegion := { addrLow := guestPa, addrHigh := guestPa + 1, ops := .ram }
  (search (fun i => pmrOps[i]?.bind (pmRegionOperationCompare target)) pmrOps.length).map
    fun found => found.bind fun i => pmrOps[i]?

def MAX_NR_PM_REGIONS : Nat := 256

/--
`register_pm_region_operation`: the table afterwards, or `none` where an
assertion fails.  Every `PmrOps` has both callbacks, as the first one asks.
-/
def registerPmRegionOperation (pmrOps : List PmRegion) (pmr : PmRegion) : Option (List PmRegion) :=
  match searchPmRegionCallback pmrOps pmr.addrLow with
  | some none =>
      if pmrOps.length < MAX_NR_PM_REGIONS then
        match BubbleSort.sort pmRegionOperationCompare (pmrOps ++ [pmr]) with
        | none => none
        | some sorted =>
            match searchPmRegionCallback sorted pmr.addrLow with
            | some (some _) => some sorted
            | _ => none
      else
        none
  | _ => none

/-- A sequence of registrations, from the empty table. -/
def registerPmRegions (pmrs : List PmRegion) : Option (List PmRegion) :=
  pmrs.foldlM registerPmRegionOperation []

/-! ## Memories -/

/-- The host offset `addr - pmr->addr_low`, in 64-bit arithmetic. -/
def PmRegion.offset (pmr : PmRegion) (addr : Word) : Nat :=
  (addr.setWidth 64 - pmr.addrLow.setWidth 64).toNat

def HostMem.load (mem : HostMem) (offset : Nat) (size : AccessSize) : Option DWord :=
  if offset + size.bytes ≤ mem.size then
    some (BitVec.ofNat 64 (loadBytes mem.bytes offset size.bytes))
  else
    none

def HostMem.store (mem : HostMem) (offset : Nat) (size : AccessSize) (value : DWord) :
    Option HostMem :=
  if offset + size.bytes ≤ mem.size then
    some { mem with bytes := storeBytes mem.bytes offset size.bytes value.toNat }
  else
    none

/-- `ram_read`. -/
def ramRead (pmr : PmRegion) (addr : Word) (size : AccessSize) : VmM DWord := do
  let vm ← get
  match vm.mainMem.load (pmr.offset addr) size with
  | some value => pure value
  | none => throw .hostFault

/-- `ram_write`. -/
def ramWrite (pmr : PmRegion) (addr : Word) (size : AccessSize) (value : DWord) : VmM Unit := do
  let vm ← get
  match vm.mainMem.store (pmr.offset addr) size value with
  | some mem => set { vm with mainMem := mem }
  | none => throw .hostFault

/-- `bootrom_read`. -/
def bootromRead (pmr : PmRegion) (addr : Word) (size : AccessSize) : VmM DWord := do
  let vm ← get
  if pmr.addrHigh.toNat < addr.toNat + size.bytes then pure 0
  else
    match vm.bootrom.load (pmr.offset addr) size with
    | some value => pure value
    | none => throw .hostFault

/-- `bootrom_write`. -/
def bootromWrite (pmr : PmRegion) (addr : Word) (size : AccessSize) (value : DWord) :
    VmM Unit := do
  let vm ← get
  if pmr.addrHigh.toNat < addr.toNat + size.bytes then pure ()
  else
    match vm.bootrom.store (pmr.offset addr) size value with
    | some mem => set { vm with bootrom := mem }
    | none => throw .hostFault

/-! ## Device registers -/

/-- `uart_refresh_interrupt`. -/
def uartRefreshInterrupt : VmM Unit :=
  modify fun vm => { vm with plic := vm.plic.setPending PLIC_IRQ_UART0 vm.uart.interruptPending }

/-- `uart_mmio_read`. -/
def uartMmioRead (addr : Word) : VmM DWord := do
  let vm ← get
  let (ret, uart) := vm.uart.readReg (addr - UART_16550_BASE).toNat
  set { vm with uart := uart }
  uartRefreshInterrupt
  pure (ret.setWidth 64)

/-- `uart_mmio_write`. -/
def uartMmioWrite (addr : Word) (size : AccessSize) (value : DWord) : VmM Unit := do
  if size ≠ .b1 then pure ()
  else
    let vm ← get
    let (out, uart) := vm.uart.writeReg (addr - UART_16550_BASE).toNat (value.setWidth 8)
    set { vm with uart := uart, hostOutput := vm.hostOutput ++ out.toList }
    uartRefreshInterrupt

/-- `syscon_write`. -/
def sysconWrite (value : DWord) : VmM Unit :=
  if sysconStops value then throw .exit else pure ()

/-! ## Dispatch -/

/-- `pmr->pmr_read(addr, size, hartptr, pmr)`. -/
def PmRegion.pmrRead (pmr : PmRegion) (addr : Word) (size : AccessSize) : VmM DWord :=
  match pmr.ops with
  | .ram => ramRead pmr addr size
  | .bootrom => bootromRead pmr addr size
  | .clint => do
      let vm ← get
      pure (vm.clint.read addr size)
  | .plic => do
      let vm ← get
      let (value, plic) := vm.plic.read addr
      set { vm with plic := plic }
      pure (value.setWidth 64)
  | .uart => uartMmioRead addr
  | .syscon => pure 0

/-- `pmr->pmr_write(addr, size, value, hartptr, pmr)`. -/
def PmRegion.pmrWrite (pmr : PmRegion) (addr : Word) (size : AccessSize) (value : DWord) :
    VmM Unit :=
  match pmr.ops with
  | .ram => ramWrite pmr addr size value
  | .bootrom => bootromWrite pmr addr size value
  | .clint => modify fun vm => { vm with clint := vm.clint.write addr size value }
  | .plic => modify fun vm => { vm with plic := vm.plic.write addr (value.setWidth 32) }
  | .uart => uartMmioWrite addr size value
  | .syscon => sysconWrite value

/-- The region of an address, ending the process where the lookup's assertions fail. -/
def findPmRegion (guestPa : Word) : VmM (Option PmRegion) := do
  let vm ← get
  match searchPmRegionCallback vm.pmrOps guestPa with
  | some pmr => pure pmr
  | none => throw .exit

/-- `direct_read8/16/32`: an unbacked address ends the process. -/
def directRead (addr : Word) (size : AccessSize) : VmM DWord := do
  match ← findPmRegion addr with
  | some pmr => pmr.pmrRead addr size
  | none => throw .exit

/-- `direct_write8/16/32`. -/
def directWrite (addr : Word) (size : AccessSize) (value : DWord) : VmM Unit := do
  match ← findPmRegion addr with
  | some pmr => pmr.pmrWrite addr size value
  | none => throw .exit

end Zelda.Vmm
