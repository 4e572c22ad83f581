import Mathlib.Data.BitVec
import Zelda.Lib.Effect
/-!
# The data model

The hart and the machine around it, field by field as the emulator declares
them.  Fields that start with `ghost` have no counterpart in the source: they
record where a cached translation or TLB entry came from and are never read by
a modelled function.
-/

namespace Zelda.Vmm

abbrev Byte := BitVec 8
abbrev Word := BitVec 32
abbrev DWord := BitVec 64
abbrev RegIndex := BitVec 5
abbrev CsrAddress := BitVec 12

/-! ## Constants -/

def TRANSLATION_CACHE_SIZE : Nat := 1024 * 512
def MAX_INSTRUCTIONS_TOTRANSLATE : Nat := 4096

def PRIVILEGE_LEVEL_USER : BitVec 2 := 0
def PRIVILEGE_LEVEL_SUPERVISOR : BitVec 2 := 1
def PRIVILEGE_LEVEL_MACHINE : BitVec 2 := 3

def CSR_ADDRESS_MSCRATCH : CsrAddress := 0x340
def CSR_ADDRESS_MEPC : CsrAddress := 0x341
def CSR_ADDRESS_MSTATUS : CsrAddress := 0x300
def CSR_ADDRESS_MIDELEG : CsrAddress := 0x303
def CSR_ADDRESS_MEDELEG : CsrAddress := 0x302
def CSR_ADDRESS_MIP : CsrAddress := 0x344
def CSR_ADDRESS_MIE : CsrAddress := 0x304
def CSR_ADDRESS_MCAUSE : CsrAddress := 0x342
def CSR_ADDRESS_MTVAL : CsrAddress := 0x343
def CSR_ADDRESS_MTVEC : CsrAddress := 0x305
def CSR_ADDRESS_SIE : CsrAddress := 0x104
def CSR_ADDRESS_SIP : CsrAddress := 0x144
def CSR_ADDRESS_SSTATUS : CsrAddress := 0x100
def CSR_ADDRESS_STVEC : CsrAddress := 0x105
def CSR_ADDRESS_SATP : CsrAddress := 0x180
def CSR_ADDRESS_SCAUSE : CsrAddress := 0x142
def CSR_ADDRESS_STVAL : CsrAddress := 0x143
def CSR_ADDRESS_SEPC : CsrAddress := 0x141
def CSR_ADDRESS_SSCRATCH : CsrAddress := 0x140
def CSR_ADDRESS_TIME : CsrAddress := 0xC01
def CSR_ADDRESS_TIMEH : CsrAddress := 0xC81

/-! ## Physical memory regions -/

/-- The read/write callback pair a region was registered with. -/
inductive PmrOps
  | ram
  | bootrom
  | clint
  | plic
  | uart
  | syscon
  deriving DecidableEq, Repr

/-- `struct pm_region_operation`; only `ram` has a `pmr_direct` callback. -/
structure PmRegion where
  addrLow : Word
  addrHigh : Word
  ops : PmrOps
  deriving DecidableEq, Repr

/-- A host allocation of `size` bytes; what lies past it is not the guest's. -/
structure HostMem where
  bytes : Nat → Byte
  size : Nat

/-! ## Address translation state -/

/-- `struct tlb_entry` without the two page-table pointers, which are never read back. -/
structure TlbEntry where
  vaTag : Word
  paTag : Word
  pageMask : Word
  entryValid : Bool
  pmr : PmRegion
  /-- The `satp` under which the entry was installed. -/
  ghostSatp : Word
  deriving DecidableEq, Repr

/--
A direct-mapped TLB.  The capacity is positive and representable in the `int`
parameter it is passed through, as the allocation in `hart_tlb_init` requires.
-/
structure Tlb where
  cap : Word
  entries : Word → TlbEntry
  cap_pos : 0 < cap.toNat
  cap_lt : cap.toNat < 2 ^ 31

/-! ## The translation cache -/

/-- `struct program_counter_mapping_item`. -/
structure MappingItem where
  guestPc : Word
  tcOffset : Nat
  /-- The address-space tag in effect when the item was added. -/
  ghostTag : Word
  deriving DecidableEq, Repr

/--
The code templates the translators emit, one per indicator of the source
(which spells `slti` and `sltiu` as `stli` and `stliu`).
-/
inductive Indicator
  | lui | auipc | jal | jalr
  | addi | slti | sltiu | xori | ori | andi | slli | srli | srai
  | add | sub | sll | slt | sltu | xor | srl | sra | or | and
  | mul | mulh | mulhsu | mulhu | div | divu | rem | remu
  | beq | bne | blt | bge | bltu | bgeu
  | lb | lh | lw | lbu | lhu
  | sb | sh | sw
  | amo
  | fence | fenceI
  | ebreak | ecall | mret | sret | sfenceVma | wfi
  | genericCsr
  deriving DecidableEq, Repr

/-- What the vmm copies into the translation cache in one piece. -/
inductive TcChunk
  /-- The block of the instruction at `pc`, emitted by the prefetch numbered `unit`. -/
  | block (pc : Word) (indicator : Indicator) (unit : Nat)
  | jumper
  deriving DecidableEq, Repr

/-- One byte of the translation cache: code of a chunk, or patched parameter data. -/
inductive TcByte
  | empty
  | code (chunk : TcChunk) (index : Nat)
  | data (value : Byte)
  deriving DecidableEq, Repr

/-! ## The hart -/

/-- `struct status_control_blob`. -/
structure Status where
  uie : Bool
  sie : Bool
  mie : Bool
  upie : Bool
  spie : Bool
  mpie : Bool
  spp : BitVec 1
  mpp : BitVec 2
  deriving DecidableEq, Repr

/--
`struct hart`.  `pcMappings` is the occupied part of the mapping array, so
`nr_translated_instructions` is its length.
-/
structure Hart where
  registers : RegIndex → Word
  pc : Word
  hartId : Nat
  pcMappings : List MappingItem
  translationCache : Nat → TcByte
  translationCachePtr : Nat
  csrBlob : CsrAddress → Word
  idelegation : Word
  ienable : Word
  ipending : Word
  status : Status
  privilegeLevel : BitVec 2
  itlb : Tlb
  dtlb : Tlb
  tsc : DWord
  /-- How many prefetches have been started. -/
  ghostPrefetches : Nat

namespace Hart

def nrTranslatedInstructions (h : Hart) : Nat :=
  h.pcMappings.length

/-- `HART_REG(hartptr, index) = value`. -/
def setReg (h : Hart) (index : RegIndex) (value : Word) : Hart :=
  { h with registers := Function.update h.registers index value }

def setCsrBlob (h : Hart) (address : CsrAddress) (value : Word) : Hart :=
  { h with csrBlob := Function.update h.csrBlob address value }

end Hart

end Zelda.Vmm
