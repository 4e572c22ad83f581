import Zelda.Vmm.Fdt
/-!
# The device tree of the machine

The nodes `fdt_init` emits for the harts, the memory and the devices, with the
handles they refer to each other by, and where the finished blob is put.
-/

namespace Zelda.Vmm

open Zelda.Lib.ByteBuffer

/-! ## Names and values -/

/-- A name with a number behind it, as `sprintf` forms it. -/
def numbered (stem : CString) (digits : List Char) : CString where
  bytes := stem.bytes ++ ascii digits
  noNul := by
    rw [List.mem_append, not_or]
    exact ⟨stem.noNul, not_mem_ascii digits⟩

/-- `"stem%x"`. -/
def hexName (stem : CString) (address : Word) : CString :=
  numbered stem (Nat.toDigits 16 address.toNat)

/-- `"stem%d"`, of a number that is not negative. -/
def decName (stem : CString) (id : Nat) : CString :=
  numbered stem (Nat.toDigits 10 id)

/-- An array of words in the byte order of the tree. -/
def cells (words : List Word) : List Byte :=
  words.flatMap fun word => wordBytes (bigEndian32 word)

/-- A string with its terminator. -/
def CString.stored (s : CString) : List Byte :=
  s.bytes ++ [0]

/-! ## What the nodes are built from -/

/-- What the node builders read of the virtual machine, its devices and its configuration. -/
structure TreeConfig where
  romStart : Word
  romSize : Word
  bootarg : CString
  /-- Where the initial ramdisk is loaded, and the size of its image. -/
  initrd : Option (Word × Word)
  mainMemBase : DWord
  mainMemSize : DWord
  nrHarts : Nat
  clintBase : Word
  clintSize : Word
  plicBase : Word
  plicSize : Word
  /-- `clint_init` has checked this. -/
  nrHarts_le : nrHarts ≤ 64

def SYSCON_BASE_DEFAULT : Word := 0x00400000
def SYSCON_SIZE : Word := 0x1000
def CLINT_TIMEBASE_FREQUENCY : Word := 10000000
def ZELDA_ROM_MIN_SIZE : Nat := 0x400000
def ZELDA_DTB_ADDRESS : Nat := 0x1000
def ZELDA_DTB_MAX_SIZE : Word := 0x2000

/-- The handles given out: the rest of `struct fdt_build_blob`, and `plic.phandle`. -/
structure Phandles where
  hartsPhandles : Nat → Word
  hartInterruptControllersPhandles : Nat → Word
  phandleGenerator : Word
  plicPhandle : Word

/-- The blob with its handles. -/
structure TreeBuild where
  blob : FdtBuildBlob
  phandles : Phandles

namespace TreeBuild

def beginNode (name : CString) (s : TreeBuild) : Except Abort TreeBuild := do
  let blob ← fdtBeginNode s.blob name
  pure { s with blob }

def prop (name : CString) (value : List Byte) (s : TreeBuild) : Except Abort TreeBuild := do
  let blob ← fdtProp s.blob name (BitVec.ofNat 32 value.length) value
  pure { s with blob }

def endNode (s : TreeBuild) : Except Abort TreeBuild := do
  let blob ← fdtEndNode s.blob
  pure { s with blob }

/-- `generate_phandle`, and what its result is stored to. -/
def generatePhandle (store : Word → Phandles → Phandles) (s : TreeBuild) : TreeBuild :=
  let phandle := s.phandles.phandleGenerator
  { s with phandles := store phandle { s.phandles with phandleGenerator := phandle + 1 } }

/-- `for (idx = 0; idx < n; idx++)`. -/
def forHarts (body : Nat → TreeBuild → Except Abort TreeBuild) :
    Nat → TreeBuild → Except Abort TreeBuild
  | 0, s => pure s
  | n + 1, s => do
      let s ← forHarts body n s
      body n s

end TreeBuild

open TreeBuild

/-! ## The nodes -/

/-- `build_bootrom_fdt_node`. -/
def buildBootromFdtNode (config : TreeConfig) (s : TreeBuild) : Except Abort TreeBuild := do
  let s ← beginNode (hexName (literal "bootrom@") config.romStart) s
  let s ← prop (literal "device_type") (literal "bootrom").stored s
  let s ← prop (literal "compatible") (literal "zelda 16MB flash").stored s
  let s ← prop (literal "reg") (cells [0, config.romStart, 0, config.romSize]) s
  endNode s

/-- What `build_chosen_fdt_node` writes of the initial ramdisk. -/
def buildInitrdProps (config : TreeConfig) (s : TreeBuild) : Except Abort TreeBuild :=
  match config.initrd with
  | none => pure s
  | some (start, size) => do
      let s ← prop (literal "linux,initrd-end") (cells [start + size]) s
      prop (literal "linux,initrd-start") (cells [start]) s

/-- `build_chosen_fdt_node`. -/
def buildChosenFdtNode (config : TreeConfig) (s : TreeBuild) : Except Abort TreeBuild := do
  let s ← beginNode (literal "chosen") s
  let s ← buildInitrdProps config s
  let s ← prop (literal "bootargs") config.bootarg.stored s
  let s ← prop (literal "stdout-path") (hexName (literal "/uart@") UART_16550_BASE).stored s
  endNode s

/-- `build_uart_fdt_node`. -/
def buildUartFdtNode (s : TreeBuild) : Except Abort TreeBuild := do
  let s ← beginNode (hexName (literal "uart@") UART_16550_BASE) s
  let s ← prop (literal "interrupts") (cells [BitVec.ofNat 32 PLIC_IRQ_UART0]) s
  let s ← prop (literal "interrupt-parent") (cells [s.phandles.plicPhandle]) s
  let s ← prop (literal "clock-frequency") (cells [0x00384000]) s
  let s ← prop (literal "reg-shift") (cells [0]) s
  let s ← prop (literal "reg-io-width") (cells [1]) s
  let s ← prop (literal "compatible") (literal "ns16550a").stored s
  let s ← prop (literal "reg") (cells [0, UART_16550_BASE, 0, 0x100]) s
  endNode s

/-- `build_memory_fdt_node`. -/
def buildMemoryFdtNode (config : TreeConfig) (s : TreeBuild) : Except Abort TreeBuild := do
  let s ← beginNode (hexName (literal "memory@") (config.mainMemBase.setWidth 32)) s
  let s ← prop (literal "device_type") (literal "memory").stored s
  let s ← prop (literal "reg")
    (cells [0, config.mainMemBase.setWidth 32, 0, config.mainMemSize.setWidth 32]) s
  endNode s

/-- A round of the first loop of `build_cpu_fdt_node`. -/
def buildCoreNode (idx : Nat) (s : TreeBuild) : Except Abort TreeBuild := do
  let s ← beginNode (decName (literal "core") idx) s
  let s := s.generatePhandle fun phandle h =>
    { h with hartsPhandles := Function.update h.hartsPhandles idx phandle }
  let s ← prop (literal "cpu") (cells [s.phandles.hartsPhandles idx]) s
  endNode s

/-- A round of its second loop. -/
def buildHartNode (idx : Nat) (s : TreeBuild) : Except Abort TreeBuild := do
  let s ← beginNode (decName (literal "cpu@") idx) s
  let s ← prop (literal "phandle") (cells [s.phandles.hartsPhandles idx]) s
  let s ← prop (literal "device_type") (literal "cpu").stored s
  let s ← prop (literal "status") (literal "okay").stored s
  let s ← prop (literal "compatible") (literal "riscv").stored s
  let s ← prop (literal "riscv,isa") (literal "rv32ima").stored s
  let s ← prop (literal "mmu-type") (literal "riscv,sv32").stored s
  let s ← prop (literal "reg") (cells [BitVec.ofNat 32 idx]) s
  let s ← beginNode (literal "interrupt-controller") s
  let s ← prop (literal "#interrupt-cells") (cells [1]) s
  let s ← prop (literal "interrupt-controller") [] s
  let s := s.generatePhandle fun phandle h =>
    { h with
      hartInterruptControllersPhandles :=
        Function.update h.hartInterruptControllersPhandles idx phandle }
  let s ← prop (literal "phandle") (cells [s.phandles.hartInterruptControllersPhandles idx]) s
  let s ← prop (literal "compatible") (literal "riscv,cpu-intc").stored s
  let s ← endNode s
  endNode s

/-- `build_cpu_fdt_node`. -/
def buildCpuFdtNode (config : TreeConfig) (s : TreeBuild) : Except Abort TreeBuild := do
  let s ← beginNode (literal "cpus") s
  let s ← prop (literal "#address-cells") (cells [1]) s
  let s ← prop (literal "#size-cells") (cells [0]) s
  let s ← prop (literal "timebase-frequency") (cells [CLINT_TIMEBASE_FREQUENCY]) s
  let s ← beginNode (literal "cpu-map") s
  let s ← beginNode (literal "cluster0") s
  let s ← forHarts buildCoreNode config.nrHarts s
  let s ← endNode s
  let s ← endNode s
  let s ← forHarts buildHartNode config.nrHarts s
  endNode s

/-- The entries of `interrupts-extended`: two interrupts of each hart's local controller. -/
def interruptsExtended (first second : Word) (h : Phandles) (nrHarts : Nat) : List Word :=
  (List.range nrHarts).flatMap fun idx =>
    let phandle := h.hartInterruptControllersPhandles idx
    [phandle, first, phandle, second]

/-- `build_clint_fdt_node`. -/
def buildClintFdtNode (config : TreeConfig) (s : TreeBuild) : Except Abort TreeBuild := do
  let s ← beginNode (hexName (literal "clint@") config.clintBase) s
  let s ← prop (literal "reg") (cells [0, config.clintBase, 0, config.clintSize]) s
  let s ← prop (literal "compatible") (literal "riscv,clint0").stored s
  let s ← prop (literal "interrupts-extended")
    (cells (interruptsExtended 3 7 s.phandles config.nrHarts)) s
  endNode s

/-- `build_plic_fdt_node`. -/
def buildPlicFdtNode (config : TreeConfig) (s : TreeBuild) : Except Abort TreeBuild := do
  let s ← beginNode (hexName (literal "plic@") config.plicBase) s
  let s ← prop (literal "phandle") (cells [s.phandles.plicPhandle]) s
  let s ← prop (literal "compatible") (literal "riscv,plic0").stored s
  let s ← prop (literal "interrupt-controller") [] s
  let s ← prop (literal "#interrupt-cells") (cells [1]) s
  let s ← prop (literal "#address-cells") (cells [0]) s
  let s ← prop (literal "riscv,ndev") (cells [BitVec.ofNat 32 (PLIC_NR_SOURCES - 1)]) s
  let s ← prop (literal "reg") (cells [0, config.plicBase, 0, config.plicSize]) s
  let s ← prop (literal "interrupts-extended")
    (cells (interruptsExtended 0xb 9 s.phandles config.nrHarts)) s
  endNode s

/-- `build_syscon_fdt_node`. -/
def buildSysconFdtNode (s : TreeBuild) : Except Abort TreeBuild := do
  let s ← beginNode (hexName (literal "test@") SYSCON_BASE_DEFAULT) s
  let s ← prop (literal "compatible") (literal "sifive,test0").stored s
  let s ← prop (literal "reg") (cells [0, SYSCON_BASE_DEFAULT, 0, SYSCON_SIZE]) s
  endNode s

/-- `build_soc_fdt_node`. -/
def buildSocFdtNode (config : TreeConfig) (s : TreeBuild) : Except Abort TreeBuild := do
  let s ← beginNode (literal "soc") s
  let s ← prop (literal "#address-cells") (cells [2]) s
  let s ← prop (literal "#size-cells") (cells [2]) s
  let s ← prop (literal "compatible") (literal "simple-bus").stored s
  let s ← prop (literal "ranges") [] s
  let s ← buildClintFdtNode config s
  let s ← buildPlicFdtNode config s
  let s ← buildSysconFdtNode s
  endNode s

/-! ## The whole tree -/

/-- What `fdt_build_init` leaves in the handles. -/
def initialPhandles : Phandles where
  hartsPhandles := fun _ => 0
  hartInterruptControllersPhandles := fun _ => 0
  phandleGenerator := 1
  plicPhandle := 0

/-- `plic_reserve_phandle`. -/
def plicReservePhandle (s : TreeBuild) : TreeBuild :=
  s.generatePhandle fun phandle h => { h with plicPhandle := phandle }

/-- The nodes of `fdt_init`, from the root to its end. -/
def buildRootFdtNode (config : TreeConfig) (s : TreeBuild) : Except Abort TreeBuild := do
  let s := plicReservePhandle s
  let s ← beginNode (literal "") s
  let s ← prop (literal "#address-cells") (cells [2]) s
  let s ← prop (literal "#size-cells") (cells [2]) s
  let s ← prop (literal "compatible") (literal "riscv-virtio").stored s
  let s ← prop (literal "model") (literal "riscv-virtio,qemu").stored s
  let s ← buildBootromFdtNode config s
  let s ← buildChosenFdtNode config s
  let s ← buildUartFdtNode s
  let s ← buildMemoryFdtNode config s
  let s ← buildCpuFdtNode config s
  let s ← buildSocFdtNode config s
  endNode s

/-- `memcpy` of the blob to its slot in the ROM. -/
def HostMem.copyTo (mem : HostMem) (offset : Nat) (bytes : List Byte) : HostMem :=
  { mem with
    bytes := fun i => if h : offset ≤ i ∧ i - offset < bytes.length
      then bytes.get ⟨i - offset, h.2⟩ else mem.bytes i }

/-- `fdt_init`, for a ROM at `bootromBase`. -/
def fdtInit (config : TreeConfig) (bootromBase : Nat) (bootrom : HostMem) :
    Except Abort (FdtBuildBlob × HostMem) := do
  let blob ← fdtBuildInit 8192 1024
  let s ← buildRootFdtNode config { blob, phandles := initialPhandles }
  let blob ← fdtEnd s.blob
  fdtAssert (blob.bufferIptr ≤ ZELDA_DTB_MAX_SIZE)
  fdtAssert (bootromBase = 0 ∧ ZELDA_ROM_MIN_SIZE ≤ bootrom.size)
  match readAt blob.buffer 0 blob.bufferIptr.toNat with
  | none => .error .hostFault
  | some bytes => pure (blob, bootrom.copyTo (ZELDA_DTB_ADDRESS - bootromBase) bytes)

end Zelda.Vmm
