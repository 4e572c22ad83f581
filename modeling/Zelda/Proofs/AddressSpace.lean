import Zelda.Proofs.Runs
/-!
# Translations belong to the address space in effect

Cached blocks are keyed by virtual address alone and TLB entries carry no
address-space number, so both are right only as long as every change of level
or of `satp` drops what was made before it.
-/

namespace Zelda.Proofs.AddressSpace

open Zelda.Vmm
open Zelda.Lib.Effect
open Zelda.Lib.X86
open Zelda.Proofs.Frames
open Zelda.Proofs.Callees
open Zelda.Proofs.Prefetch
open Zelda.Proofs.Runs (PrefetchClosed ends_prefetchInstructions)

/-! ## The invariant -/

/-- Every valid slot of the TLB was installed under `satp`. -/
def InstalledUnder (satp : Word) (tlb : Tlb) : Prop :=
  ∀ idx, idx < tlb.cap → (tlb.entries idx).entryValid = true →
    (tlb.entries idx).ghostSatp = satp

/-- What is cached was made in the address space in effect. -/
structure Coherent (h : Hart) : Prop where
  mappings : ∀ item ∈ h.pcMappings, item.ghostTag = h.addressSpaceTag
  itlb : InstalledUnder (h.csrBlob CSR_ADDRESS_SATP) h.itlb
  dtlb : InstalledUnder (h.csrBlob CSR_ADDRESS_SATP) h.dtlb

theorem installedUnder_invalidate (satp : Word) (tlb : Tlb) :
    InstalledUnder satp tlb.invalidate := by
  intro idx hidx hvalid
  have hcap : idx < tlb.cap := hidx
  simp only [Tlb.invalidate, if_pos hcap] at hvalid
  cases hvalid

theorem installedUnder_install {satp : Word} {tlb : Tlb} {slot : Word} {entry : TlbEntry}
    (h : InstalledUnder satp tlb) (hentry : entry.ghostSatp = satp) :
    InstalledUnder satp (tlb.install slot entry) := by
  intro idx hidx hvalid
  by_cases hslot : idx = slot
  · subst hslot
    simp only [Tlb.install, Function.update_self]
    exact hentry
  · simp only [Tlb.install, Function.update_of_ne hslot] at hvalid ⊢
    exact h idx hidx hvalid

/-! ## Changes of level -/

/-- What a hart keeps while only its level, its status and its trap registers change. -/
structure SameCaches (h h' : Hart) : Prop where
  pcMappings : h'.pcMappings = h.pcMappings
  itlb : h'.itlb = h.itlb
  dtlb : h'.dtlb = h.dtlb
  satp : h'.csrBlob CSR_ADDRESS_SATP = h.csrBlob CSR_ADDRESS_SATP

theorem coherent_of_sameCaches {h h' : Hart} (hsame : SameCaches h h')
    (htag : h'.addressSpaceTag = h.addressSpaceTag) (hh : Coherent h) : Coherent h' where
  mappings := by
    rw [hsame.pcMappings, htag]
    exact hh.mappings
  itlb := by
    rw [hsame.itlb, hsame.satp]
    exact hh.itlb
  dtlb := by
    rw [hsame.dtlb, hsame.satp]
    exact hh.dtlb

theorem coherent_flushTranslationCache {h : Hart}
    (hitlb : InstalledUnder (h.csrBlob CSR_ADDRESS_SATP) h.itlb)
    (hdtlb : InstalledUnder (h.csrBlob CSR_ADDRESS_SATP) h.dtlb) :
    Coherent h.flushTranslationCache where
  mappings := fun _ hmem => absurd hmem List.not_mem_nil
  itlb := hitlb
  dtlb := hdtlb

/-- A level change followed by the conditional flush is coherent whichever way the tag went. -/
theorem coherent_flushOnChange {h h' : Hart} (hsame : SameCaches h h') (hh : Coherent h) :
    Coherent (h'.flushTranslationCacheOnAddressSpaceChange h.addressSpaceTag) := by
  unfold Hart.flushTranslationCacheOnAddressSpaceChange
  split
  · apply coherent_flushTranslationCache
    · rw [hsame.itlb, hsame.satp]
      exact hh.itlb
    · rw [hsame.dtlb, hsame.satp]
      exact hh.dtlb
  · rename_i htag
    exact coherent_of_sameCaches hsame (not_not.mp htag) hh

theorem satp_setCsrBlob (h : Hart) {address : CsrAddress} (value : Word)
    (hne : address ≠ CSR_ADDRESS_SATP) :
    (h.setCsrBlob address value).csrBlob CSR_ADDRESS_SATP = h.csrBlob CSR_ADDRESS_SATP :=
  Function.update_of_ne hne.symm _ _

theorem sameCaches_setupMmodeTrap (h : Hart) (cause tval : Word) :
    SameCaches h (h.setupMmodeTrap cause tval) := by
  refine ⟨rfl, rfl, rfl, ?_⟩
  unfold Hart.setupMmodeTrap
  rw [satp_setCsrBlob _ _ (by decide), satp_setCsrBlob _ _ (by decide),
    satp_setCsrBlob _ _ (by decide)]

theorem sameCaches_setupSmodeTrap (h : Hart) (cause tval : Word) :
    SameCaches h (h.setupSmodeTrap cause tval) := by
  refine ⟨rfl, rfl, rfl, ?_⟩
  unfold Hart.setupSmodeTrap
  rw [satp_setCsrBlob _ _ (by decide), satp_setCsrBlob _ _ (by decide),
    satp_setCsrBlob _ _ (by decide)]

theorem coherent_takeTrap (h : Hart) (level : BitVec 2) (cause tval : Word) (hh : Coherent h) :
    Coherent (h.takeTrap level cause tval) := by
  unfold Hart.takeTrap
  refine coherent_flushOnChange ?_ hh
  split
  · exact sameCaches_setupMmodeTrap h cause tval
  · exact sameCaches_setupSmodeTrap h cause tval

/-! ## Every operation -/

theorem closed_coherent : Closed Coherent where
  setReg _ _ _ hh := ⟨hh.mappings, hh.itlb, hh.dtlb⟩
  setPc _ _ hh := ⟨hh.mappings, hh.itlb, hh.dtlb⟩
  install vm side va entry hleaf hh := by
    obtain ⟨-, -, -, hsatp⟩ := PageWalk.walkLeaf_ok hleaf
    cases side with
    | itlb => exact ⟨hh.mappings, installedUnder_install hh.itlb hsatp, hh.dtlb⟩
    | dtlb => exact ⟨hh.mappings, hh.itlb, installedUnder_install hh.dtlb hsatp⟩

theorem csrClosed_coherent : CsrClosed Coherent where
  interrupts _ _ _ _ hh := ⟨hh.mappings, hh.itlb, hh.dtlb⟩
  setStatus _ _ hh := ⟨hh.mappings, hh.itlb, hh.dtlb⟩
  setCsrBlob h address value hne hh := by
    have hsatp := satp_setCsrBlob h value hne
    have htag : (h.setCsrBlob address value).addressSpaceTag = h.addressSpaceTag := by
      unfold Hart.addressSpaceTag
      rw [hsatp]
      rfl
    exact coherent_of_sameCaches (h := h) ⟨rfl, rfl, rfl, hsatp⟩ htag hh
  writeSatp h value _ := coherent_flushTranslationCache
    (installedUnder_invalidate _ _) (installedUnder_invalidate _ _)

theorem privilegedClosed_coherent : PrivilegedClosed Coherent where
  refresh _ _ _ hh := ⟨hh.mappings, hh.itlb, hh.dtlb⟩
  setTsc _ _ hh := ⟨hh.mappings, hh.itlb, hh.dtlb⟩
  csrWrite vm value hcsr hf _ hh := csrClosed_coherent.csrWrite vm value hcsr hf hh
  returnFromMmode _ _ _ hh := coherent_flushOnChange ⟨rfl, rfl, rfl, rfl⟩ hh
  returnFromSmode _ _ hh := coherent_flushOnChange ⟨rfl, rfl, rfl, rfl⟩ hh
  flush _ hh := coherent_flushTranslationCache hh.itlb hh.dtlb
  sfenceVma _ _ := coherent_flushTranslationCache
    (installedUnder_invalidate _ _) (installedUnder_invalidate _ _)

/-- A new item carries the tag in effect. -/
theorem coherent_committed {hc : HostCode} {e : Emitted} {address : Word} {h h' : Hart}
    (hcommit : Committed hc e address h h') (hh : Coherent h) : Coherent h' := by
  obtain ⟨added, item, hadd, -, rfl⟩ := hcommit
  obtain ⟨-, -, rfl⟩ := addTranslationItem_eq hadd
  rw [writeParams_frame]
  refine ⟨?_, hh.itlb, hh.dtlb⟩
  intro item hmem
  rcases MappingArray.mem_insertMappingItem.mp hmem with rfl | hmem
  · rfl
  · exact hh.mappings item hmem

theorem prefetchClosed_coherent : PrefetchClosed Coherent where
  commit := coherent_committed
  count _ _ hh := ⟨hh.mappings, hh.itlb, hh.dtlb⟩
  jumper _ _ hh := ⟨hh.mappings, hh.itlb, hh.dtlb⟩
  flush := privilegedClosed_coherent.flush

/-! ## Runs -/

/-- The operations a run interleaves. -/
inductive Operation
  /-- A translated instruction, with any parameter words and host registers. -/
  | block (indicator : Indicator) (param : Nat → Word) (c : Cpu)
  | prefetch
  | raiseTrap (level : BitVec 2) (cause tval : Word)
  | mret
  | sret
  | csrInstruction (instruction : Word)
  | satpWrite (value : Word)
  | sfenceVma
  | fenceI
  /-- Device polling and interrupt delivery between translation units. -/
  | pump

def Operation.run (hc : HostCode) : Operation → VmM Unit
  | .block indicator param c => do
      let _ ← runBlock hc indicator param c
  | .prefetch => prefetchInstructions hc
  | .raiseTrap level cause tval => raiseTrapRaw level cause tval
  | .mret => mretCallback
  | .sret => sretCallback
  | .csrInstruction instruction => riscvGenericCsrCallback instruction
  | .satpWrite value => csrWrite satpCsrEntry value
  | .sfenceVma => sfenceVmaCallback
  | .fenceI => modifyHart Hart.flushTranslationCache
  | .pump => pumpDevicesAndDeliverInterrupts

/-- One operation, whichever way it ends, keeps what each kind of change keeps. -/
theorem ends_operation {I : Hart → Prop} (hI : Closed I) (hP : PrivilegedClosed I)
    (hF : PrefetchClosed I)
    (htrap : ∀ h level cause tval, I h → I (Hart.takeTrap h level cause tval)) (hc : HostCode)
    (op : Operation) : Ends (OnHart I) (fun _ => OnHart I) (op.run hc) := by
  have hE : Leaves I (fun _ _ _ => True) fun _ => OnHart I :=
    ⟨fun _ _ _ hs => hs, fun s level cause tval _ hs => htrap s.hart level cause tval hs⟩
  have hblock : BlockCauses I fun _ _ _ => True := fun _ _ _ _ _ => trivial
  cases op with
  | block indicator param c =>
      exact ends_bind (ends_runBlock hI hP hE hblock hc indicator param c) fun _ => ends_pure _
  | prefetch => exact ends_prefetchInstructions hI.install hF hE (fun _ _ => trivial) hc
  | raiseTrap level cause tval => exact ends_raiseTrapRaw hE level (fun _ _ => trivial) tval
  | mret => exact ends_mretCallback hE hP.eventClosed.returnClosed hblock
  | sret => exact ends_sretCallback hE hP.eventClosed.returnClosed hblock
  | csrInstruction instruction => exact ends_riscvGenericCsrCallback hI hP hE instruction
  | satpWrite value =>
      have hcsr : csrEntryAt CSR_ADDRESS_SATP = some satpCsrEntry := rfl
      exact ends_csrWrite hP hcsr BitVec.and_allOnes
  | sfenceVma => exact ends_modifyHart hP.sfenceVma
  | fenceI => exact ends_modifyHart hP.flush
  | pump => exact ends_pumpDevicesAndDeliverInterrupts hP.refresh hE fun _ _ _ _ _ => trivial

/--
The states reached from an empty cache and invalid TLBs.  An operation that
ends in a trap goes on from the state the trap leaves.
-/
inductive Reachable (hc : HostCode) : Vm → Prop
  | start {vm : Vm} (unmapped : vm.hart.pcMappings = [])
      (invalid : ∀ side idx, ((vm.hart.tlb side).entries idx).entryValid = false) :
      Reachable hc vm
  | step {vm : Vm} (op : Operation) (reached : Reachable hc vm) :
      Reachable hc (finalState (op.run hc vm))

theorem installedUnder_of_invalid {satp : Word} {tlb : Tlb}
    (h : ∀ idx, (tlb.entries idx).entryValid = false) : InstalledUnder satp tlb := by
  intro idx _ hvalid
  rw [h idx] at hvalid
  cases hvalid

/-- Cached translations and TLB entries always belong to the address space in effect. -/
theorem reachable_coherent {hc : HostCode} {vm : Vm} (h : Reachable hc vm) : Coherent vm.hart := by
  induction h with
  | start unmapped invalid =>
      refine ⟨?_, installedUnder_of_invalid (invalid .itlb), installedUnder_of_invalid (invalid .dtlb)⟩
      rw [unmapped]
      exact fun _ hmem => absurd hmem List.not_mem_nil
  | step op _ ih =>
      exact (ends_operation closed_coherent privilegedClosed_coherent prefetchClosed_coherent
        coherent_takeTrap hc op).finalState ih

/-! ## A program in the boot ROM -/

/-- A ROM with these words at the reset address. -/
def romOf (words : List Word) (k : Nat) : Byte :=
  if 0x4000 ≤ k then (words.getD ((k - 0x4000) / 4) 0).extractLsb' (8 * ((k - 0x4000) % 4)) 8 else 0

/-- Store, load, divide and stay there. -/
def bootProgram : List Word :=
  [ 0x800000b7,  -- lui  x1, 0x80000
    0x02500113,  -- addi x2, x0, 37
    0x0020a423,  -- sw   x2, 8(x1)
    0x0080a183,  -- lw   x3, 8(x1)
    0x00500213,  -- addi x4, x0, 5
    0x0241f2b3,  -- remu x5, x3, x4
    0x0000006f ] -- j    .

/-- Tables that map the page at `0x1000`, and `j .` in it. -/
def kernelRam : Nat → Byte
  | 0x0 => 0x01
  | 0x1 => 0x04
  | 0x3 => 0x20
  | 0x1004 => 0x0f
  | 0x1005 => 0x08
  | 0x1007 => 0x20
  | 0x2000 => 0x6f
  | _ => 0

/-- Machine mode at the reset address, on the way to the supervisor at `0x1000`. -/
def bootVm : Vm :=
  let vm := virtualMachineInit (romOf bootProgram) kernelRam
  let hart := vm.hart.setCsrBlob CSR_ADDRESS_MEPC 0x1000
  { vm with hart := { hart with status := { hart.status with mpp := PRIVILEGE_LEVEL_SUPERVISOR } } }

/-- The states of a run that does one operation after the other. -/
def runAll (hc : HostCode) : List Operation → Vm → Vm
  | [], vm => vm
  | op :: ops, vm => runAll hc ops (finalState (op.run hc vm))

theorem Reachable.runAll {hc : HostCode} {vm : Vm} (h : Reachable hc vm) (ops : List Operation) :
    Reachable hc (runAll hc ops vm) := by
  induction ops generalizing vm with
  | nil => exact h
  | cons op ops ih => exact ih (.step op h)

/-- The firmware's code is dropped on the way to the kernel, whose page is then in the TLB. -/
theorem reachable_coherent_loop :
    (runAll evenHostCode [.prefetch] bootVm).hart.pcMappings.map MappingItem.ghostTag =
        List.replicate 7 0 ∧
      let vm := runAll evenHostCode [.prefetch, .satpWrite 0x80080000, .mret, .prefetch] bootVm
      vm.hart.pcMappings.map MappingItem.ghostTag = [0x80080000] ∧
        (vm.hart.itlb.vaToTlbEntry 0x1000).isSome = true ∧ Coherent vm.hart := by
  have hstart : Reachable evenHostCode bootVm := .start rfl (by rintro (_ | _) idx <;> rfl)
  refine ⟨by decide +kernel, by decide +kernel, by decide +kernel, ?_⟩
  exact reachable_coherent (hstart.runAll [.prefetch, .satpWrite 0x80080000, .mret, .prefetch])

end Zelda.Proofs.AddressSpace
