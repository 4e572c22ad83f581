import Zelda.Vmm.FdtNodes
/-!
# What the vmm leaves for the firmware

The block in the ROM that tells the firmware where things are.
-/

namespace Zelda.Vmm

/-- The fields of `struct zelda_boot_info`. -/
inductive BootInfoField
  | magic
  | kernelEntry
  | dtbAddress
  | initrdStart
  | initrdEnd
  | memoryStart
  | memorySize
  | nrHarts
  deriving DecidableEq, Repr

/-- `struct zelda_boot_info`. -/
abbrev ZeldaBootInfo := BootInfoField → Word

namespace BootInfoField

/-- The fields in the order of the structure. -/
def all : List BootInfoField :=
  [magic, kernelEntry, dtbAddress, initrdStart, initrdEnd, memoryStart, memorySize, nrHarts]

def offset (field : BootInfoField) : Nat :=
  4 * all.idxOf field

end BootInfoField

def ZELDA_BOOT_INFO_ADDRESS : Nat := 0x3000
def ZELDA_BOOT_INFO_MAGIC : Word := 0x5a424f49

def ZeldaBootInfo.bytes (info : ZeldaBootInfo) : List Byte :=
  BootInfoField.all.flatMap fun field => wordBytes (info field)

/-- What `boot_info_init` stores in the block. -/
def bootInfoOf (config : TreeConfig) (kernelEntry : Word) : ZeldaBootInfo
  | .magic => ZELDA_BOOT_INFO_MAGIC
  | .kernelEntry => kernelEntry
  | .dtbAddress => BitVec.ofNat 32 ZELDA_DTB_ADDRESS
  | .initrdStart => (config.initrd.map Prod.fst).getD 0
  | .initrdEnd => (config.initrd.map fun (start, size) => start + size).getD 0
  | .memoryStart => config.mainMemBase.setWidth 32
  | .memorySize => config.mainMemSize.setWidth 32
  | .nrHarts => BitVec.ofNat 32 config.nrHarts

/-- `boot_info_init`, for a ROM at `bootromBase`. -/
def bootInfoInit (config : TreeConfig) (kernelEntry : Word) (bootromBase : Nat)
    (bootrom : HostMem) : Except Abort HostMem := do
  fdtAssert (bootromBase ≤ ZELDA_BOOT_INFO_ADDRESS ∧
    ZELDA_BOOT_INFO_ADDRESS + 32 < bootromBase + bootrom.size)
  pure (bootrom.copyTo (ZELDA_BOOT_INFO_ADDRESS - bootromBase)
    (bootInfoOf config kernelEntry).bytes)

end Zelda.Vmm
