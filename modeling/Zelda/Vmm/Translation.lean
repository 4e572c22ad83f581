import Zelda.Vmm.Amo
import Zelda.Vmm.Csr
import Zelda.Vmm.Privileged
import Zelda.Vmm.Translators
/-!
# Prefetching and running translated code

The prefetch loop that fills the translation cache, the host environment of
translated code, and the resume path that enters the cache.
-/

namespace Zelda.Vmm

open Zelda.Lib.X86

/-! ## Prefetch -/

/-- `struct prefetch_blob` without its hart pointer. -/
structure PrefetchBlob where
  nextInstructionToFetch : Word
  isToStop : Bool
  isFlushable : Bool
  deriving DecidableEq, Repr

/--
`PRECHECK_TRANSLATION_CACHE`: make room by the one flush a prefetch may do, or
stop.  The flag says whether the translator goes on.
-/
def precheckTranslationCache (hc : HostCode) (indicator : Indicator) (blob : PrefetchBlob) :
    VmM (Bool × PrefetchBlob) := do
  let vm ← get
  if vm.hart.unoccupiedCacheSize hc < hc.blockSize indicator then
    if blob.isFlushable then
      modifyHart Hart.flushTranslationCache
      pure (true, { blob with isFlushable := false })
    else
      pure (false, { blob with isToStop := true })
  else
    pure (true, { blob with isFlushable := false })

/-- The translator that `translate` selected: precheck, commit, advance. -/
def emit (hc : HostCode) (emitted : Emitted) (blob : PrefetchBlob) : VmM PrefetchBlob := do
  let (proceed, blob) ← precheckTranslationCache hc emitted.indicator blob
  if proceed then
    commitTranslation hc blob.nextInstructionToFetch emitted.indicator emitted.params
    if emitted.stop then
      pure { blob with isToStop := true }
    else
      pure { blob with nextInstructionToFetch := blob.nextInstructionToFetch + 4 }
  else
    pure blob

/-- `prefetch_one_instruction`. -/
def prefetchOneInstruction (hc : HostCode) (blob : PrefetchBlob) : VmM PrefetchBlob := do
  let instruction ← mmuInstructionRead32 blob.nextInstructionToFetch
  match translate instruction blob.nextInstructionToFetch with
  | none => throw .exit
  | some emitted => emit hc emitted blob

/--
The loop of `prefetch_instructions`.  Every round but the last adds a mapping
item, so the capacity of the mapping array bounds the number of rounds.
-/
def prefetchLoop (hc : HostCode) : Nat → PrefetchBlob → VmM PrefetchBlob
  | 0, blob => pure blob
  | rounds + 1, blob => do
      let vm ← get
      if (searchTranslationItem vm.hart.pcMappings blob.nextInstructionToFetch).isSome then
        pure blob
      else
        let blob ← prefetchOneInstruction hc blob
        if blob.isToStop then pure blob else prefetchLoop hc rounds blob

def prefetchRounds : Nat :=
  MAX_INSTRUCTIONS_TOTRANSLATE + 2

/-- The blob a prefetch starts with. -/
def initialBlob (pc : Word) : PrefetchBlob :=
  { nextInstructionToFetch := pc, isToStop := false, isFlushable := true }

/-- `prefetch_instructions`. -/
def prefetchInstructions (hc : HostCode) : VmM Unit := do
  modifyHart fun h => { h with ghostPrefetches := h.ghostPrefetches + 1 }
  let vm ← get
  let oldTransPtr := vm.hart.translationCachePtr
  let _ ← prefetchLoop hc prefetchRounds (initialBlob vm.hart.pc)
  let vm ← get
  if oldTransPtr ≠ vm.hart.translationCachePtr then
    modifyHart fun h => h.appendJumper hc
  else
    pure ()

/-! ## The host environment of a block -/

/-- The hart fields translated code reaches through `%r15` and `%r14`. -/
inductive HartSlot
  | register (index : RegIndex)
  | pc
  deriving DecidableEq, Repr

/-- `registers` is the first field of the hart and `pc` follows its 32 words. -/
def hartSlot (hc : HostCode) (addr : DWord) : Option HartSlot :=
  let offset := (addr - hc.hartBase).toNat
  if offset = 128 then some .pc
  else if offset < 128 ∧ offset % 4 = 0 then some (.register (BitVec.ofNat 5 (offset / 4)))
  else none

def Hart.readSlot (h : Hart) : HartSlot → Word
  | .register index => h.registers index
  | .pc => h.pc

def Hart.writeSlot (h : Hart) (value : Word) : HartSlot → Hart
  | .register index => h.setReg index value
  | .pc => { h with pc := value }

/-- A `uint8_t` register index argument; beyond the register file it is a stray access. -/
def indexArgument (value : Word) : VmM RegIndex :=
  if (value.setWidth 8).toNat < 32 then pure (value.setWidth 5) else throw .hostFault

/-- Put a narrow result in the low bits of `rax`; the ABI leaves the rest undefined. -/
def narrowResult (junk : DWord) (bits : Nat) (value : DWord) : DWord :=
  (junk <<< bits) ||| (value &&& (BitVec.allOnes 64 >>> (64 - bits)))

/-- A call from translated code, with its arguments in registers. -/
def callVmmFn (hc : HostCode) (f : VmmFn) (c : Cpu) : VmM DWord := do
  let junk := hc.clobber f c .rax
  if c.rdi ≠ hc.hartBase then throw .hostFault
  else
    match f with
    | .enterVmmDbgShell => pure junk
    | .mmuRead8 => do
        let value ← vmread (c.get32 .rsi) .b1
        pure (narrowResult junk 8 value)
    | .mmuRead16 => do
        let value ← vmread (c.get32 .rsi) .b2
        pure (narrowResult junk 16 value)
    | .mmuRead32 => do
        let value ← vmread (c.get32 .rsi) .b4
        pure (narrowResult junk 32 value)
    | .mmuWrite8 => do
        vmwrite (c.get32 .rsi) .b1 ((c.rdx.setWidth 8).setWidth 64)
        pure junk
    | .mmuWrite16 => do
        vmwrite (c.get32 .rsi) .b2 ((c.rdx.setWidth 16).setWidth 64)
        pure junk
    | .mmuWrite32 => do
        vmwrite (c.get32 .rsi) .b4 ((c.get32 .rdx).setWidth 64)
        pure junk
    | .amoInstructionSlowpath => do
        let rs1Index ← indexArgument (c.get32 .rsi)
        let rs2Index ← indexArgument (c.get32 .rdx)
        let rdIndex ← indexArgument (c.get32 .rcx)
        amoInstructionSlowpath rs1Index rs2Index rdIndex (c.get32 .r8)
        pure junk
    | .flushTranslationCache => do
        modifyHart Hart.flushTranslationCache
        pure junk
    | .ebreakCallback => do
        ebreakCallback
        pure junk
    | .mretCallback => do
        mretCallback
        pure junk
    | .sretCallback => do
        sretCallback
        pure junk
    | .sfenceVmaCallback => do
        sfenceVmaCallback
        pure junk
    | .ecallCallback => do
        ecallCallback
        pure junk
    | .wfiCallback => do
        wfiCallback
        pure junk
    | .riscvGenericCsrCallback => do
        riscvGenericCsrCallback (c.get32 .rsi)
        pure junk

/-- Memory, callees and scratch registers as a block sees them. -/
def hostEnv (hc : HostCode) : Env VmmFn Abort Vm where
  load32 addr vm := (hartSlot hc addr).map vm.hart.readSlot
  store32 addr value vm :=
    (hartSlot hc addr).map fun slot => { vm with hart := vm.hart.writeSlot value slot }
  call := callVmmFn hc
  clobber := hc.clobber
  fault := .hostFault

/-- The registers `vmresume` loads before it jumps into the cache. -/
def entryCpu (hc : HostCode) : Cpu :=
  { hc.scratch with
    r12 := hc.hartBase
    r13 := hc.translationCacheBase
    r14 := hc.hartBase + 128
    r15 := hc.hartBase }

/-- Run one block with the given parameter words. -/
def runBlock (hc : HostCode) (indicator : Indicator) (param : Nat → Word) (c : Cpu) :
    VmM (End × Cpu) :=
  exec (hostEnv hc) param 0 (template indicator) c

/-! ## Resuming the guest -/

/-- Follow the cache from `offset` until control goes back to the vmm. -/
def runCache (hc : HostCode) : Nat → Nat → Cpu → VmM Unit
  | 0, _, _ => pure ()
  | steps + 1, offset, c => do
      let vm ← get
      match vm.hart.translationCache offset with
      | .code .jumper 0 => pure ()
      | .code (.block _ indicator _) 0 => do
          let param := fun i => (vm.hart.tcParam hc offset indicator i).getD 0
          match ← runBlock hc indicator param c with
          | (.fallThrough, c) => runCache hc steps (offset + hc.blockSize indicator) c
          | (.toMonitor, _) => pure ()
      | _ => throw .hostFault

/-- `vmresume`: the cache has at most one block or jumper per byte. -/
def vmresume (hc : HostCode) : VmM Unit := do
  prefetchInstructions hc
  let vm ← get
  match searchTranslationItem vm.hart.pcMappings vm.hart.pc with
  | none => throw .exit
  | some ti => runCache hc TRANSLATION_CACHE_SIZE ti.tcOffset (entryCpu hc)

/-- `vmexit`, where the vmm entry point leads. -/
def vmexit (hc : HostCode) : VmM Unit := do
  pumpDevicesAndDeliverInterrupts
  vmresume hc

end Zelda.Vmm
