import Zelda.Vmm.Templates
import Zelda.Vmm.Vm
/-!
# The translation cache

Blocks are copied one after another into the cache; the mapping array records
where each guest pc went and is kept sorted by binary insertion.
-/

namespace Zelda.Vmm

open Zelda.Lib.BinarySearch
open Zelda.Lib.Bytes
open Zelda.Lib.X86

/--
What the assembler, the linker and the allocator decide: the size of every
template and of the jumper, where the hart and its cache lie, and what stands
in registers that carry no defined value.
-/
structure HostCode where
  /-- `TRANSLATION_SIZE(indicator)`. -/
  blockSize : Indicator → Nat
  jumperSize : Nat
  hartBase : DWord
  translationCacheBase : DWord
  /-- What a vmm function leaves in the registers it need not preserve. -/
  clobber : VmmFn → Cpu → Reg → DWord
  /-- The other registers when the cache is entered. -/
  scratch : Cpu
  params_lt : ∀ i, 4 * i.nrParams < blockSize i
  jumperSize_pos : 0 < jumperSize
  block_fits : ∀ i, blockSize i + jumperSize ≤ TRANSLATION_CACHE_SIZE

/-! ## The mapping array -/

/-- `comparing_mapping_item`: the 32-bit difference, read as signed. -/
def comparingMappingItem (pa pb : Word) : Int :=
  (pa - pb).toInt

/-- `search_translation_item`. -/
def searchTranslationItem (mappings : List MappingItem) (address : Word) : Option MappingItem :=
  match search (fun i => mappings[i]?.map fun item => comparingMappingItem address item.guestPc)
      mappings.length with
  | some (some i) => mappings[i]?
  | _ => none

/-- Where `INSERTION_SORT` moves a new item. -/
def mappingPosition (mappings : List MappingItem) (address : Word) : Nat :=
  insertPosition
    (fun i => (mappings[i]?.map fun item => comparingMappingItem address item.guestPc).getD 0)
    (fun i => (mappings[i]?.map fun item => comparingMappingItem item.guestPc address).getD 0)
    mappings.length

/-- `INSERTION_SORT` on the mapping array with `item` in its last slot. -/
def insertMappingItem (mappings : List MappingItem) (item : MappingItem) : List MappingItem :=
  mappings.insertIdx (mappingPosition mappings item.guestPc) item

namespace Hart

/-- `flush_translation_cache`: the bytes stay where they are. -/
def flushTranslationCache (h : Hart) : Hart :=
  { h with pcMappings := [], translationCachePtr := 0 }

/-- `unoccupied_cache_size`, an `int`. -/
def unoccupiedCacheSize (hc : HostCode) (h : Hart) : Int :=
  if h.nrTranslatedInstructions < MAX_INSTRUCTIONS_TOTRANSLATE then
    TRANSLATION_CACHE_SIZE - h.translationCachePtr - hc.jumperSize
  else
    0

/-- The tag `address_space_tag` computes. -/
def addressSpaceTag (h : Hart) : Word :=
  if h.privilegeLevel = PRIVILEGE_LEVEL_MACHINE ∨
      h.csrBlob CSR_ADDRESS_SATP &&& 0x80000000 = 0 then 0
  else h.csrBlob CSR_ADDRESS_SATP

/-- Copy `size` bytes of a chunk to the end of the cache; the last `tail` are parameter words. -/
def copyChunk (h : Hart) (chunk : TcChunk) (size tail : Nat) : Hart :=
  { h with
    translationCache := fun k =>
      if h.translationCachePtr ≤ k ∧ k < h.translationCachePtr + size then
        if k < h.translationCachePtr + size - tail then
          .code chunk (k - h.translationCachePtr)
        else
          .data 0xcc
      else
        h.translationCache k
    translationCachePtr := h.translationCachePtr + size }

/--
`add_translation_item` for the block of `address`: `none` where the source
returns a nonzero code.
-/
def addTranslationItem (hc : HostCode) (h : Hart) (address : Word) (indicator : Indicator) :
    Option Hart :=
  if h.unoccupiedCacheSize hc < hc.blockSize indicator then none
  else if MAX_INSTRUCTIONS_TOTRANSLATE ≤ h.nrTranslatedInstructions then none
  else
    let item : MappingItem :=
      { guestPc := address
        tcOffset := h.translationCachePtr
        ghostTag := h.addressSpaceTag }
    let h := h.copyChunk (.block address indicator h.ghostPrefetches) (hc.blockSize indicator)
      (4 * indicator.nrParams)
    some { h with pcMappings := insertMappingItem h.pcMappings item }

/-- The parameter loop of `COMMIT_TRANSLATION`: words stored from byte `offset` on. -/
def writeParams (h : Hart) (offset : Nat) : List Word → Hart
  | [] => h
  | word :: rest =>
      let cache := fun k =>
        if offset ≤ k ∧ k < offset + 4 then
          TcByte.data (BitVec.ofNat 8 (word.toNat / 256 ^ (k - offset)))
        else
          h.translationCache k
      { h with translationCache := cache }.writeParams (offset + 4) rest

/-- The jumper `prefetch_instructions` appends. -/
def appendJumper (hc : HostCode) (h : Hart) : Hart :=
  h.copyChunk .jumper hc.jumperSize 0

/-- Parameter `index` of the block at `offset`, read through its `PIC_PARAM` operand. -/
def tcParam (hc : HostCode) (h : Hart) (offset : Nat) (indicator : Indicator) (index : Nat) :
    Option Word :=
  let base := offset + hc.blockSize indicator - 4 * indicator.nrParams + 4 * index
  match h.translationCache base, h.translationCache (base + 1), h.translationCache (base + 2),
    h.translationCache (base + 3) with
  | .data b0, .data b1, .data b2, .data b3 => some (b3 ++ b2 ++ b1 ++ b0)
  | _, _, _, _ => none

end Hart

/-- `COMMIT_TRANSLATION`. -/
def commitTranslation (hc : HostCode) (address : Word) (indicator : Indicator)
    (params : List Word) : VmM Unit := do
  let vm ← get
  match vm.hart.addTranslationItem hc address indicator with
  | none => throw .exit
  | some hart =>
      match searchTranslationItem hart.pcMappings address with
      | none => throw .exit
      | some item =>
          assert (item.guestPc == address)
          let blockEnd := item.tcOffset + hc.blockSize indicator
          set { vm with hart := hart.writeParams (blockEnd - 4 * params.length) params }

end Zelda.Vmm
