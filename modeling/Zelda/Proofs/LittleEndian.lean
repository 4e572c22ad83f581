import Zelda.Proofs.DataAccess
import Zelda.Proofs.MemoryTemplates
import Zelda.Proofs.TlbAgreement
import Zelda.Vmm.Init
/-!
# Multi-byte accesses

An access looks up the page of its first byte and then takes all of its bytes
from there on, in physical order.  Whether that is the composition of byte
accesses depends on where the other bytes are.
-/

namespace Zelda.Proofs.LittleEndian

open Zelda.Vmm
open Zelda.Isa (LoadOp StoreOp)
open Zelda.Lib.Effect
open Zelda.Lib.Bytes
open Zelda.Lib.X86
open Zelda.Proofs.DataAccess
open Zelda.Proofs.Decode (loadIndicator storeIndicator)
open Zelda.Proofs.MemoryTemplates
open Zelda.Proofs.PageWalk
open Zelda.Proofs.Templates
open Zelda.Proofs.TlbAgreement

/-! ## Byte reads -/

/-- The value or the way out of a byte read, without the state it leaves. -/
def byteOutcome : EStateM.Result Abort Vm DWord → Except Abort Byte
  | .ok value _ => .ok (value.setWidth 8)
  | .error e _ => .error e

/-- What `mmu_read8` yields. -/
def yields (vm : Vm) (va : Word) : Except Abort Byte :=
  byteOutcome (vmread va .b1 vm)

/-- The byte of main memory that an address translates to, if it does. -/
def ramOffset (vm : Vm) (va : Word) : Option Nat :=
  match target vm va with
  | .region pmr pa =>
      if pmr.ops = .ram ∧ pmr.offset pa < vm.mainMem.size then some (pmr.offset pa) else none
  | _ => none

theorem ramOffset_eq_some {vm : Vm} {va : Word} {offset : Nat}
    (h : ramOffset vm va = some offset) :
    ∃ pmr pa, target vm va = .region pmr pa ∧ pmr.ops = .ram ∧ pmr.offset pa = offset ∧
      offset < vm.mainMem.size := by
  unfold ramOffset at h
  split at h
  · rename_i pmr pa htarget
    split at h
    · rename_i hram
      obtain rfl := Option.some.inj h
      exact ⟨pmr, pa, htarget, hram.1, rfl, hram.2⟩
    · cases h
  · cases h

/-- The stores an access can read from. -/
structure SameDevices (s t : Vm) : Prop where
  bootrom : t.bootrom = s.bootrom
  clint : t.clint = s.clint
  plic : t.plic = s.plic
  uart : t.uart = s.uart

theorem touched_sameDevices (vm : Vm) (va : Word) : SameDevices vm (touched vm va) :=
  ⟨touched_field Vm.bootrom (fun _ => rfl) va, touched_field Vm.clint (fun _ => rfl) va,
    touched_field Vm.plic (fun _ => rfl) va, touched_field Vm.uart (fun _ => rfl) va⟩

theorem byteOutcome_ramRead (pmr : PmRegion) (pa : Word) (vm : Vm) (hram : pmr.ops = .ram) :
    byteOutcome (pmr.pmrRead pa .b1 vm) =
      if pmr.offset pa < vm.mainMem.size then .ok (vm.mainMem.bytes (pmr.offset pa))
      else .error .hostFault := by
  unfold PmRegion.pmrRead
  rw [hram]
  show byteOutcome (ramRead pmr pa .b1 vm) = _
  unfold ramRead HostMem.load
  rw [bind_apply_ok (get_apply vm)]
  by_cases hlt : pmr.offset pa < vm.mainMem.size
  · have hfits : pmr.offset pa + AccessSize.b1.bytes ≤ vm.mainMem.size := hlt
    rw [if_pos hfits, if_pos hlt]
    show Except.ok ((BitVec.ofNat 64 (loadBytes _ _ 1)).setWidth 8) = _
    congr 1
    apply BitVec.eq_of_toNat_eq
    have hbyte := (vm.mainMem.bytes (pmr.offset pa)).isLt
    simp only [loadBytes, BitVec.toNat_setWidth, BitVec.toNat_ofNat]
    omega
  · have hfits : ¬pmr.offset pa + AccessSize.b1.bytes ≤ vm.mainMem.size := hlt
    rw [if_neg hfits, if_neg hlt]
    rfl

theorem byteOutcome_pmrRead_congr {s t : Vm} (h : SameDevices s t) {pmr : PmRegion} (pa : Word)
    (hram : pmr.ops ≠ .ram) :
    byteOutcome (pmr.pmrRead pa .b1 t) = byteOutcome (pmr.pmrRead pa .b1 s) := by
  unfold PmRegion.pmrRead
  cases hops : pmr.ops with
  | ram => exact absurd hops hram
  | bootrom =>
      show byteOutcome (bootromRead pmr pa .b1 t) = byteOutcome (bootromRead pmr pa .b1 s)
      unfold bootromRead
      rw [bind_apply_ok (get_apply t), bind_apply_ok (get_apply s), h.bootrom]
      split
      · rfl
      · cases s.bootrom.load (pmr.offset pa) .b1 <;> rfl
  | clint =>
      show byteOutcome (.ok (t.clint.read pa .b1) t) = byteOutcome (.ok (s.clint.read pa .b1) s)
      rw [h.clint]
      rfl
  | plic =>
      show Except.ok (((t.plic.read pa).1.setWidth 64).setWidth 8) =
        Except.ok (((s.plic.read pa).1.setWidth 64).setWidth 8)
      rw [h.plic]
  | uart =>
      show Except.ok (((t.uart.readReg (pa - UART_16550_BASE).toNat).1.setWidth 64).setWidth 8) =
        Except.ok (((s.uart.readReg (pa - UART_16550_BASE).toNat).1.setWidth 64).setWidth 8)
      rw [h.uart]
  | syscon => rfl

/-- What a byte read yields, from where it goes. -/
theorem yields_eq (vm : Vm) (va : Word) :
    yields vm va =
      match target vm va with
      | .region pmr pa => byteOutcome (pmr.pmrRead pa .b1 vm)
      | .pageFault => .error .trap
      | .exit => .error .exit := by
  unfold yields
  rw [vmread_apply]
  cases htarget : target vm va with
  | pageFault => rfl
  | exit => rfl
  | region pmr pa =>
      show byteOutcome (pmr.pmrRead pa .b1 (touched vm va)) = byteOutcome (pmr.pmrRead pa .b1 vm)
      by_cases hram : pmr.ops = .ram
      · rw [byteOutcome_ramRead _ _ _ hram, byteOutcome_ramRead _ _ _ hram, touched_mainMem]
      · exact byteOutcome_pmrRead_congr (touched_sameDevices vm va) pa hram

theorem yields_of_ramOffset {vm : Vm} {va : Word} {offset : Nat}
    (h : ramOffset vm va = some offset) : yields vm va = .ok (vm.mainMem.bytes offset) := by
  obtain ⟨pmr, pa, htarget, hram, rfl, hlt⟩ := ramOffset_eq_some h
  rw [yields_eq, htarget]
  show byteOutcome _ = _
  rw [byteOutcome_ramRead _ _ _ hram, if_pos hlt]

/-! ## Accesses of several bytes -/

theorem vmread_ram_eq {vm : Vm} {va : Word} {offset : Nat} (h : ramOffset vm va = some offset)
    (size : AccessSize) :
    vmread va size vm =
      if offset + size.bytes ≤ vm.mainMem.size then
        .ok (BitVec.ofNat 64 (loadBytes vm.mainMem.bytes offset size.bytes)) (touched vm va)
      else .error .hostFault (touched vm va) := by
  obtain ⟨pmr, pa, htarget, hram, rfl, -⟩ := ramOffset_eq_some h
  rw [vmread_apply, htarget]
  show pmr.pmrRead pa size (touched vm va) = _
  unfold PmRegion.pmrRead
  rw [hram]
  show ramRead pmr pa size (touched vm va) = _
  unfold ramRead HostMem.load
  rw [bind_apply_ok (get_apply _), touched_mainMem]
  split
  · rfl
  · rfl

theorem vmread_ram {vm : Vm} {va : Word} {offset : Nat} (h : ramOffset vm va = some offset)
    {size : AccessSize} (hfits : offset + size.bytes ≤ vm.mainMem.size) :
    vmread va size vm =
      .ok (BitVec.ofNat 64 (loadBytes vm.mainMem.bytes offset size.bytes)) (touched vm va) :=
  (vmread_ram_eq h size).trans (if_pos hfits)

/-- The machine after a store of `size` bytes at a place in main memory. -/
def stored (vm : Vm) (va : Word) (offset : Nat) (size : AccessSize) (value : DWord) : Vm :=
  { touched vm va with
    mainMem := { vm.mainMem with
      bytes := storeBytes vm.mainMem.bytes offset size.bytes value.toNat } }

theorem vmwrite_ram {vm : Vm} {va : Word} {offset : Nat} (h : ramOffset vm va = some offset)
    (size : AccessSize) (value : DWord) :
    vmwrite va size value vm =
      if offset + size.bytes ≤ vm.mainMem.size then .ok () (stored vm va offset size value)
      else .error .hostFault (touched vm va) := by
  obtain ⟨pmr, pa, htarget, hram, rfl, -⟩ := ramOffset_eq_some h
  rw [vmwrite_apply, htarget]
  show pmr.pmrWrite pa size value (touched vm va) = _
  unfold PmRegion.pmrWrite
  rw [hram]
  show ramWrite pmr pa size value (touched vm va) = _
  unfold ramWrite HostMem.store
  rw [bind_apply_ok (get_apply _), touched_mainMem]
  split
  · rfl
  · rfl

/-! ## The conditions -/

/-- Every byte of the access is backed by main memory. -/
def Mapped (vm : Vm) (va : Word) (size : AccessSize) : Prop :=
  ∀ i, i < size.bytes → (ramOffset vm (va + BitVec.ofNat 32 i)).isSome = true

/-- The bytes of the access are consecutive in main memory. -/
def Contiguous (vm : Vm) (va : Word) (size : AccessSize) : Prop :=
  ∃ offset, ∀ i, i < size.bytes → ramOffset vm (va + BitVec.ofNat 32 i) = some (offset + i)

/-- A place from which the walk of some address reads a page-table entry. -/
inductive WalkedWord (vm : Vm) : Word → Prop
  | root (va : Word) : WalkedWord vm (level1Address (vm.hart.csrBlob CSR_ADDRESS_SATP) va)
  | second (va level1Pte : Word)
      (read : pteAt vm (level1Address (vm.hart.csrBlob CSR_ADDRESS_SATP) va) =
        some (some level1Pte)) (valid : pteValid level1Pte = true)
      (inner : pteIsLeaf level1Pte = false) : WalkedWord vm (level2Address level1Pte va)

/-- No byte of the access is part of a page-table entry the walker reads. -/
def SparesTables (vm : Vm) (offset n : Nat) : Prop :=
  ∀ pa, WalkedWord vm pa → ∀ pmr, searchPmRegionCallback vm.pmrOps pa = some (some pmr) →
    pmr.ops = .ram → offset + n ≤ pmr.offset pa ∨ pmr.offset pa + 4 ≤ offset

/-- Where the bytes of an access inside main memory start, the bytes behind read as they do. -/
def ReadsAlike (vm : Vm) (va : Word) (size : AccessSize) : Prop :=
  ∃ offset, ramOffset vm va = some offset ∧ offset + size.bytes ≤ vm.mainMem.size ∧
    ∀ i, i < size.bytes →
      yields vm (va + BitVec.ofNat 32 i) = .ok (vm.mainMem.bytes (offset + i))

/-- The access is not to a page-table entry the walker reads. -/
def TablesSpared (vm : Vm) (va : Word) (size : AccessSize) : Prop :=
  vm.hart.pagingOn = true →
    ∀ offset, ramOffset vm va = some offset → SparesTables vm offset size.bytes

/--
The entry that the access may put in the TLB leaves the byte reads apart from
the access as they are, and apart from it.
-/
def Steady (vm : Vm) (va : Word) (size : AccessSize) : Prop :=
  ∀ x, (∀ i, i < size.bytes → ramOffset vm x ≠ ramOffset vm (va + BitVec.ofNat 32 i)) →
    yields (touched vm va) x = yields vm x ∧
      ∀ i, i < size.bytes →
        ramOffset (touched vm va) x ≠ ramOffset (touched vm va) (va + BitVec.ofNat 32 i)

/--
The access moves no other translation: the entry it may put in the TLB answers
for its own page only, and it does not write to the page tables.
-/
def Undisturbed (vm : Vm) (va : Word) (size : AccessSize) : Prop :=
  vm.hart.pagingOn = true →
    (∀ x, target (touched vm va) x = target vm x) ∧
      ∀ offset, ramOffset vm va = some offset → SparesTables vm offset size.bytes

theorem Undisturbed.tablesSpared {vm : Vm} {va : Word} {size : AccessSize}
    (h : Undisturbed vm va size) : TablesSpared vm va size :=
  fun hpaging => (h hpaging).2

theorem Undisturbed.target_eq {vm : Vm} {va : Word} {size : AccessSize}
    (h : Undisturbed vm va size) (x : Word) : target (touched vm va) x = target vm x := by
  by_cases hpaging : vm.hart.pagingOn = true
  · exact (h hpaging).1 x
  · have htouched : touched vm va = vm := if_neg hpaging
    rw [htouched]

/-! ## Translations after a store -/

/-- A walk depends on the words it reads, `satp` and the region table. -/
theorem walkLeaf_of_walkedWords {vm vm' : Vm}
    (htables : ∀ pa, WalkedWord vm pa → pteAt vm' pa = pteAt vm pa)
    (hcsr : vm'.hart.csrBlob = vm.hart.csrBlob) (hops : vm'.pmrOps = vm.pmrOps) (va : Word) :
    walkLeaf vm' va = walkLeaf vm va := by
  unfold walkLeaf leafAt
  simp only [hcsr, hops, htables _ (.root va)]
  split
  · rfl
  rcases hroot : pteAt vm _ with _ | _ | level1Pte
  · rfl
  · rfl
  by_cases hvalid : pteValid level1Pte = true
  · by_cases hleaf : pteIsLeaf level1Pte = true
    · simp only [hleaf, if_true]
    · have hinner : pteIsLeaf level1Pte = false := by simpa using hleaf
      simp only [htables _ (.second va level1Pte hroot hvalid hinner)]
  · show (if ¬pteValid level1Pte = true then _ else _) = if ¬pteValid level1Pte = true then _ else _
    rw [if_pos hvalid, if_pos hvalid]

theorem walkLeaf_touched (vm : Vm) (va x : Word) : walkLeaf (touched vm va) x = walkLeaf vm x :=
  walkLeaf_of_walkedWords
    (fun pa _ => pteAt_congr (touched_pmrOps vm va) (touched_mainMem vm va) pa)
    (touched_csrBlob vm va) (touched_pmrOps vm va) x

theorem pteAt_stored {vm : Vm} {va : Word} {offset : Nat} {size : AccessSize}
    (hspares : SparesTables vm offset size.bytes) (value : DWord) (pa : Word)
    (hpa : WalkedWord vm pa) : pteAt (stored vm va offset size value) pa = pteAt vm pa := by
  have hops : (stored vm va offset size value).pmrOps = vm.pmrOps :=
    touched_pmrOps vm va
  unfold pteAt
  rw [hops]
  rcases hregion : searchPmRegionCallback vm.pmrOps pa with _ | _ | pmr
  · rfl
  · rfl
  · simp only
    split
    · rename_i hram
      have hdisjoint : loadBytes (stored vm va offset size value).mainMem.bytes (pmr.offset pa) 4 =
          loadBytes vm.mainMem.bytes (pmr.offset pa) 4 :=
        loadBytes_storeBytes_disjoint (hspares pa hpa pmr hregion hram)
      rw [hdisjoint]
    · rfl

/-- After the store every address goes where the TLB entry it needed leads it. -/
theorem target_stored {vm : Vm} {va : Word} {offset : Nat} {size : AccessSize}
    (hoffset : ramOffset vm va = some offset) (h : TablesSpared vm va size) (value : DWord)
    (x : Word) : target (stored vm va offset size value) x = target (touched vm va) x := by
  have hops : (stored vm va offset size value).pmrOps = vm.pmrOps :=
    touched_pmrOps vm va
  have hpaging : (stored vm va offset size value).hart.pagingOn = vm.hart.pagingOn :=
    touched_pagingOn vm va
  by_cases hon : vm.hart.pagingOn = true
  · apply target_of_sameTranslation
    refine ⟨rfl, rfl, fun y => ?_, rfl⟩
    calc walkLeaf (stored vm va offset size value) y = walkLeaf vm y :=
          walkLeaf_of_walkedWords (pteAt_stored (h hon offset hoffset) value)
            (touched_csrBlob vm va) hops y
      _ = walkLeaf (touched vm va) y := (walkLeaf_touched vm va y).symm
  · unfold target
    rw [hpaging, touched_pagingOn, if_neg hon, if_neg hon, hops, touched_pmrOps]

/-- A byte read in main memory, with the TLB of one machine and the bytes of another. -/
theorem yields_of_target {vm t : Vm} {x : Word} (htarget : target t x = target vm x)
    (hsize : t.mainMem.size = vm.mainMem.size) (hdevices : SameDevices vm t) :
    yields t x =
      match ramOffset vm x with
      | some o => .ok (t.mainMem.bytes o)
      | none => yields vm x := by
  rw [yields_eq, yields_eq, htarget]
  unfold ramOffset
  cases target vm x with
  | pageFault => rfl
  | exit => rfl
  | region pmr pa =>
      show byteOutcome (pmr.pmrRead pa .b1 t) = _
      by_cases hram : pmr.ops = .ram
      · by_cases hlt : pmr.offset pa < vm.mainMem.size
        · simp only [byteOutcome_ramRead _ _ _ hram, hsize, hram, hlt, and_self, if_true]
        · simp only [byteOutcome_ramRead _ _ _ hram, hsize, hlt, and_false, if_false]
      · simp only [hram, false_and, if_false]
        exact byteOutcome_pmrRead_congr hdevices pa hram

/-- What a byte read finds after the store. -/
theorem yields_stored {vm : Vm} {va : Word} {offset : Nat} {size : AccessSize}
    (hoffset : ramOffset vm va = some offset) (h : TablesSpared vm va size) (value : DWord)
    (x : Word) :
    yields (stored vm va offset size value) x =
      match ramOffset (touched vm va) x with
      | some o => .ok (storeBytes vm.mainMem.bytes offset size.bytes value.toNat o)
      | none => yields (touched vm va) x :=
  yields_of_target (target_stored hoffset h value x)
    (by rw [touched_mainMem]; rfl) ⟨rfl, rfl, rfl, rfl⟩

/-- A byte read after the store, at an address whose byte was not stored to. -/
theorem yields_stored_of_outside {vm : Vm} {va : Word} {offset : Nat} {size : AccessSize}
    (hoffset : ramOffset vm va = some offset) (h : TablesSpared vm va size) (value : DWord)
    {x : Word} (hx : ∀ o, ramOffset (touched vm va) x = some o →
      ¬(offset ≤ o ∧ o < offset + size.bytes)) :
    yields (stored vm va offset size value) x = yields (touched vm va) x := by
  rw [yields_stored hoffset h]
  cases hoff : ramOffset (touched vm va) x with
  | none => rfl
  | some o =>
      show Except.ok _ = _
      rw [yields_of_ramOffset hoff, storeBytes_of_not_mem (hx o hoff), touched_mainMem]

/-! ## The composition law -/

/-- The machine with other values in its integer registers. -/
def withRegs (vm : Vm) (regs : RegIndex → Word) : Vm :=
  { vm with hart := { vm.hart with registers := regs } }

/-- Byte `i` of a register. -/
def byteOf (value : Word) (i : Nat) : Byte :=
  BitVec.ofNat 8 (value.toNat / 256 ^ i)

/-- Every load of this size at `va` extends the composition of the byte reads. -/
def LoadsCompose (vm : Vm) (va : Word) (size : AccessSize) : Prop :=
  ∀ (hc : HostCode) (c : Cpu) (param : Nat → Word) (rs1 rd : RegIndex) (l : LoadOp) (b : Nat → Byte),
    l.size = size → Ready hc c → param 1 = indexParam rs1 → param 2 = indexParam rd →
    vm.hart.registers rs1 + param 0 = va →
    (∀ i, i < size.bytes → yields vm (va + BitVec.ofNat 32 i) = .ok (b i)) →
    Wp (runBlock hc (loadIndicator l) param c)
      (fun _ t => t.hart.registers =
        ((vm.hart.setReg rd (l.widen (BitVec.ofNat 64 (loadBytes b 0 size.bytes)))).setReg 0
          0).registers)
      (fun _ _ => False) vm

/-- Every store of this size at `va` is seen by byte reads there and nowhere else. -/
def StoresCompose (vm : Vm) (va : Word) (size : AccessSize) : Prop :=
  ∀ (hc : HostCode) (c : Cpu) (param : Nat → Word) (rs1 rs2 : RegIndex) (st : StoreOp),
    st.size = size → Ready hc c → param 1 = indexParam rs1 → param 2 = indexParam rs2 →
    vm.hart.registers rs1 + param 0 = va →
    Wp (runBlock hc (storeIndicator st) param c)
      (fun _ t =>
        (∀ i, i < size.bytes → yields t (va + BitVec.ofNat 32 i) =
          .ok (byteOf (vm.hart.registers rs2) i)) ∧
        ∀ x, (∀ i, i < size.bytes → ramOffset vm x ≠ ramOffset vm (va + BitVec.ofNat 32 i)) →
          yields t x = yields vm x)
      (fun _ _ => False) vm

/-- Both, whatever the registers hold. -/
def AccessesCompose (vm : Vm) (va : Word) (size : AccessSize) : Prop :=
  ∀ regs, LoadsCompose (withRegs vm regs) va size ∧ StoresCompose (withRegs vm regs) va size

theorem yields_congr {s t : Vm} (htarget : ∀ x, target t x = target s x)
    (hmem : t.mainMem = s.mainMem) (hdevices : SameDevices s t) (x : Word) :
    yields t x = yields s x := by
  rw [yields_of_target (htarget x) (by rw [hmem]) hdevices, hmem]
  cases hoff : ramOffset s x with
  | none => rfl
  | some o => exact (yields_of_ramOffset hoff).symm

theorem add_zero_index (va : Word) : va + BitVec.ofNat 32 0 = va :=
  BitVec.add_zero va

theorem bytes_pos (size : AccessSize) : 0 < size.bytes := by
  cases size <;> decide

/-- The first byte of a contiguous access and the room behind it. -/
theorem contiguous_start {vm : Vm} {va : Word} {size : AccessSize} {offset : Nat}
    (h : ∀ i, i < size.bytes → ramOffset vm (va + BitVec.ofNat 32 i) = some (offset + i)) :
    ramOffset vm va = some offset ∧ offset + size.bytes ≤ vm.mainMem.size := by
  have hpos := bytes_pos size
  constructor
  · have hfirst := h 0 hpos
    rwa [add_zero_index] at hfirst
  · obtain ⟨-, -, -, -, -, hlt⟩ := ramOffset_eq_some (h (size.bytes - 1) (by omega))
    omega

theorem readsAlike_of_contiguous {vm : Vm} {va : Word} {size : AccessSize}
    (h : Contiguous vm va size) : ReadsAlike vm va size := by
  obtain ⟨offset, hoffset⟩ := h
  obtain ⟨hstart, hfits⟩ := contiguous_start hoffset
  exact ⟨offset, hstart, hfits, fun i hi => yields_of_ramOffset (hoffset i hi)⟩

/-- What the block of a load does when its first byte is in main memory. -/
theorem runBlock_load {vm : Vm} {va : Word} {offset : Nat} (l : LoadOp)
    (hstart : ramOffset vm va = some offset) {hc : HostCode} {c : Cpu} {param : Nat → Word}
    {rs1 rd : RegIndex} (hready : Ready hc c) (h1 : param 1 = indexParam rs1)
    (h2 : param 2 = indexParam rd) (hva : vm.hart.registers rs1 + param 0 = va) :
    Wp (runBlock hc (loadIndicator l) param c)
      (fun _ t => offset + l.size.bytes ≤ vm.mainMem.size ∧ t.hart.registers =
        ((vm.hart.setReg rd (l.widen (BitVec.ofNat 64
          (loadBytes vm.mainMem.bytes offset l.size.bytes)))).setReg 0 0).registers)
      (fun _ _ => ¬offset + l.size.bytes ≤ vm.mainMem.size) vm := by
  refine runBlock_wp hready fun c' hready' => execWp_load l hready' h1 h2 ?_
  rw [hva, Wp, vmread_ram_eq hstart]
  by_cases hfits : offset + l.size.bytes ≤ vm.mainMem.size
  · rw [if_pos hfits]
    intro _
    have hregs : (touched vm va).hart.registers = vm.hart.registers :=
      touched_field (fun t => t.hart.registers) (fun _ => rfl) va
    refine ⟨hfits, ?_⟩
    show Function.update (Function.update (touched vm va).hart.registers _ _) _ _ = _
    rw [hregs]
    rfl
  · rw [if_neg hfits]
    exact hfits

theorem loadsCompose_of_readsAlike {vm : Vm} {va : Word} {size : AccessSize}
    (h : ReadsAlike vm va size) : LoadsCompose vm va size := by
  intro hc c param rs1 rd l b hsize hready h1 h2 hva hb
  obtain ⟨offset, hstart, hfits, hbytes⟩ := h
  subst hsize
  have hload : loadBytes vm.mainMem.bytes offset l.size.bytes = loadBytes b 0 l.size.bytes := by
    apply loadBytes_shift
    intro i hi
    have hyield := (hbytes i hi).symm.trans (hb i hi)
    rw [Nat.zero_add]
    exact Except.ok.inj hyield
  rw [← hload]
  exact wp_mono (runBlock_load l hstart hready h1 h2 hva) (fun _ _ ht => ht.2)
    fun _ _ hno => hno hfits

/-- The bytes a store leaves in main memory are those of the register. -/
theorem byte_stored (st : StoreOp) (mem : Nat → Byte) (offset : Nat) (value : Word) {i : Nat}
    (hi : i < st.size.bytes) :
    storeBytes mem offset st.size.bytes (st.narrow value).toNat (offset + i) = byteOf value i := by
  rw [storeBytes_add hi]
  have hnarrow : (st.narrow value).toNat = value.toNat % 256 ^ st.size.bytes := by
    have hlt := value.isLt
    cases st <;> simp only [StoreOp.narrow, StoreOp.size, AccessSize.bytes, BitVec.toNat_setWidth] <;>
      omega
  rw [hnarrow, ofNat_mod_div hi]
  rfl

/-- What the block of a store does when its first byte is in main memory. -/
theorem runBlock_store {vm : Vm} {va : Word} {offset : Nat} (st : StoreOp)
    (hstart : ramOffset vm va = some offset) {hc : HostCode} {c : Cpu} {param : Nat → Word}
    {rs1 rs2 : RegIndex} (hready : Ready hc c) (h1 : param 1 = indexParam rs1)
    (h2 : param 2 = indexParam rs2) (hva : vm.hart.registers rs1 + param 0 = va) :
    Wp (runBlock hc (storeIndicator st) param c)
      (fun _ t => offset + st.size.bytes ≤ vm.mainMem.size ∧
        ∀ x, yields t x =
          yields (stored vm va offset st.size (st.narrow (vm.hart.registers rs2))) x)
      (fun _ _ => ¬offset + st.size.bytes ≤ vm.mainMem.size) vm := by
  refine runBlock_wp hready fun c' hready' => execWp_store st hready' h1 h2 ?_
  rw [hva, Wp, vmwrite_ram hstart]
  by_cases hfits : offset + st.size.bytes ≤ vm.mainMem.size
  · rw [if_pos hfits]
    intro _
    refine ⟨hfits, fun x => ?_⟩
    apply yields_congr
    · exact fun _ => rfl
    · rfl
    · exact ⟨rfl, rfl, rfl, rfl⟩
  · rw [if_neg hfits]
    exact hfits

/-- The first byte of an access is where it was once its translation is in the TLB. -/
theorem ramOffset_touched {vm : Vm} {va : Word} {offset : Nat}
    (h : ramOffset vm va = some offset) : ramOffset (touched vm va) va = some offset := by
  obtain ⟨pmr, pa, htarget, hram, rfl, hlt⟩ := ramOffset_eq_some h
  unfold ramOffset
  rw [target_touched htarget, touched_mainMem]
  exact if_pos ⟨hram, hlt⟩

theorem storesCompose_of_steady {vm : Vm} {va : Word} {size : AccessSize} {offset : Nat}
    (hstart : ramOffset vm va = some offset) (hspared : TablesSpared vm va size)
    (hcontiguous : Contiguous (touched vm va) va size) (hsteady : Steady vm va size) :
    StoresCompose vm va size := by
  intro hc c param rs1 rs2 st hsize hready h1 h2 hva
  obtain ⟨o, hoffset⟩ := hcontiguous
  obtain ⟨hfirst, hfits⟩ := contiguous_start hoffset
  rw [ramOffset_touched hstart] at hfirst
  rw [touched_mainMem] at hfits
  obtain rfl := Option.some.inj hfirst
  subst hsize
  refine wp_mono (runBlock_store st hstart hready h1 h2 hva) ?_ fun _ _ hno => hno hfits
  rintro _ t ⟨-, hyields⟩
  constructor
  · intro i hi
    rw [hyields, yields_stored hstart hspared, hoffset i hi]
    exact congrArg Except.ok (byte_stored st _ _ _ hi)
  · intro x hx
    obtain ⟨hsame, hapart⟩ := hsteady x hx
    rw [hyields, ← hsame]
    apply yields_stored_of_outside hstart hspared
    rintro o ho ⟨hlow, hhigh⟩
    have hmiss := hapart (o - offset) (by omega)
    rw [ho, hoffset (o - offset) (by omega)] at hmiss
    exact hmiss (congrArg some (by omega))

/-! ## Where the law holds -/

/-- Two register values whose bytes all differ, within each and between them. -/
def probe (k : Nat) : Word :=
  if k = 0 then 0x03020100 else 0x07060504

theorem byteOf_probe (k : Nat) {i : Nat} (hi : i < 4) :
    byteOf (probe k) i = BitVec.ofNat 8 (if k = 0 then i else i + 4) := by
  unfold probe
  by_cases hk : k = 0
  · rw [if_pos hk, if_pos hk]
    revert i
    decide
  · rw [if_neg hk, if_neg hk]
    revert i
    decide

theorem ofNat_byte_inj {a b : Nat} (ha : a < 256) (hb : b < 256)
    (h : BitVec.ofNat 8 a = BitVec.ofNat 8 b) : a = b := by
  have hnat := congrArg BitVec.toNat h
  rw [BitVec.toNat_ofNat, BitVec.toNat_ofNat] at hnat
  omega

/-- The registers of the probing store: the address in `x1` and the value in `x2`. -/
def probeRegs (va value : Word) (index : RegIndex) : Word :=
  if index = 1 then va else value

def probeParam (k : Nat) : Word :=
  if k = 1 then indexParam 1 else if k = 2 then indexParam 2 else 0

theorem sameTranslation_withRegs (vm : Vm) (regs : RegIndex → Word) :
    SameTranslation vm (withRegs vm regs) :=
  ⟨rfl, rfl, fun _ => rfl, rfl⟩

theorem sparesTables_withRegs {vm : Vm} {offset n : Nat} (h : SparesTables vm offset n)
    (regs : RegIndex → Word) : SparesTables (withRegs vm regs) offset n := by
  intro pa hpa
  cases hpa with
  | root x => exact h _ (.root x)
  | second x level1Pte read valid inner => exact h _ (.second x level1Pte read valid inner)

theorem tablesSpared_withRegs {vm : Vm} {va : Word} {size : AccessSize}
    (h : TablesSpared vm va size) (regs : RegIndex → Word) :
    TablesSpared (withRegs vm regs) va size :=
  fun hpaging offset hoffset => sparesTables_withRegs (h hpaging offset hoffset) regs

theorem touched_withRegs (vm : Vm) (regs : RegIndex → Word) (va : Word) :
    touched (withRegs vm regs) va = withRegs (touched vm va) regs := by
  obtain ⟨dtlb, h⟩ := exists_touched_eq (withRegs vm regs) va
  obtain ⟨dtlb', h'⟩ := exists_touched_eq vm va
  have hdtlb := touched_of_sameTranslation (sameTranslation_withRegs vm regs) va
  rw [h, h'] at hdtlb
  obtain rfl : dtlb = dtlb' := hdtlb
  rw [h, h']
  rfl

theorem yields_withRegs (vm : Vm) (regs : RegIndex → Word) (x : Word) :
    yields (withRegs vm regs) x = yields vm x :=
  yields_congr (s := vm) (t := withRegs vm regs) (fun _ => rfl) rfl ⟨rfl, rfl, rfl, rfl⟩ x

theorem steady_withRegs {vm : Vm} {va : Word} {size : AccessSize} (h : Steady vm va size)
    (regs : RegIndex → Word) : Steady (withRegs vm regs) va size := by
  intro x hx
  obtain ⟨hsame, hapart⟩ := h x hx
  rw [touched_withRegs, yields_withRegs, yields_withRegs]
  exact ⟨hsame, hapart⟩

theorem readsAlike_withRegs {vm : Vm} {va : Word} {size : AccessSize} (h : ReadsAlike vm va size)
    (regs : RegIndex → Word) : ReadsAlike (withRegs vm regs) va size := by
  obtain ⟨offset, hstart, hfits, hbytes⟩ := h
  exact ⟨offset, hstart, hfits, fun i hi => (yields_withRegs vm regs _).trans (hbytes i hi)⟩

/-! ## Loads -/

/-- The load that takes the bytes of a store of the same size as they are. -/
def unsignedLoad : StoreOp → LoadOp
  | .sb => .lbu
  | .sh => .lhu
  | .sw => .lw

theorem size_unsignedLoad (st : StoreOp) : (unsignedLoad st).size = st.size := by
  cases st <;> rfl

/-- The bytes an unsigned load took, from the register. -/
theorem loadBytes_eq_of_widen {st : StoreOp} {mem mem' : Nat → Byte} {offset offset' : Nat}
    (h : (unsignedLoad st).widen (BitVec.ofNat 64 (loadBytes mem offset st.size.bytes)) =
      (unsignedLoad st).widen (BitVec.ofNat 64 (loadBytes mem' offset' st.size.bytes))) :
    loadBytes mem offset st.size.bytes = loadBytes mem' offset' st.size.bytes := by
  have hlt := loadBytes_lt mem offset st.size.bytes
  have hlt' := loadBytes_lt mem' offset' st.size.bytes
  have hnat := congrArg BitVec.toNat h
  cases st <;>
    simp only [unsignedLoad, LoadOp.widen, StoreOp.size, AccessSize.bytes, BitVec.toNat_setWidth,
      BitVec.toNat_ofNat] at hlt hlt' hnat ⊢ <;>
    omega

theorem registers_setReg_two (h : Hart) (value : Word) :
    ((h.setReg 2 value).setReg 0 0).registers 2 = value := by
  show Function.update (Function.update h.registers 2 value) 0 0 2 = value
  rw [Function.update_of_ne (by decide), Function.update_self]

/-- A load that composes found the bytes that byte reads find. -/
theorem readsAlike_of_compose {vm : Vm} {va : Word} (st : StoreOp) (hmapped : Mapped vm va st.size)
    (h : ∀ regs, LoadsCompose (withRegs vm regs) va st.size) : ReadsAlike vm va st.size := by
  obtain ⟨offset, hfirst⟩ := Option.isSome_iff_exists.mp (hmapped 0 (bytes_pos _))
  have hstart : ramOffset vm va = some offset := by rwa [add_zero_index] at hfirst
  -- the bytes that byte reads find
  choose! o ho using fun i (hi : i < st.size.bytes) => Option.isSome_iff_exists.mp (hmapped i hi)
  have hyield : ∀ i, i < st.size.bytes →
      yields vm (va + BitVec.ofNat 32 i) = .ok (vm.mainMem.bytes (o i)) :=
    fun i hi => yields_of_ramOffset (ho i hi)
  set s := withRegs vm (probeRegs va 0)
  have hready := ready_entryCpu evenHostCode
  have hva : s.hart.registers 1 + probeParam 0 = va := BitVec.add_zero va
  have hstart' : ramOffset s va = some offset := hstart
  have hsize := size_unsignedLoad st
  have hclaim := h (probeRegs va 0) evenHostCode (entryCpu evenHostCode) probeParam 1 2
    (unsignedLoad st) (fun i => vm.mainMem.bytes (o i)) hsize hready rfl rfl hva
    fun i hi => (yields_withRegs vm _ _).trans (hyield i hi)
  have h1 : probeParam 1 = indexParam 1 := rfl
  have h2 : probeParam 2 = indexParam 2 := rfl
  have hblock := runBlock_load (unsignedLoad st) hstart' hready h1 h2 hva
  have hboth := wp_and hclaim hblock
  unfold Wp at hboth
  cases hrun : runBlock evenHostCode (loadIndicator (unsignedLoad st)) probeParam
      (entryCpu evenHostCode) s with
  | error e t =>
      rw [hrun] at hboth
      exact hboth.1.elim
  | ok a t =>
      rw [hrun] at hboth
      obtain ⟨hregs, hfits, hregs'⟩ := hboth
      have hvalue := congrFun (hregs.symm.trans hregs') 2
      rw [registers_setReg_two, registers_setReg_two, hsize] at hvalue
      have hload := loadBytes_eq_of_widen hvalue
      rw [hsize] at hfits
      refine ⟨offset, hstart, hfits, fun i hi => ?_⟩
      have hbyte := eq_of_loadBytes_eq hload hi
      rw [Nat.zero_add] at hbyte
      rw [hyield i hi]
      exact congrArg Except.ok hbyte

/-! ## Stores -/

/-- What a byte read finds after the store of a probe. -/
def afterProbe (vm : Vm) (va : Word) (offset : Nat) (st : StoreOp) (k : Nat) (x : Word) :
    Except Abort Byte :=
  match ramOffset (touched vm va) x with
  | some o => .ok (storeBytes vm.mainMem.bytes offset st.size.bytes (st.narrow (probe k)).toNat o)
  | none => yields (touched vm va) x

/-- A store that composes does so for the probes. -/
theorem afterProbe_of_compose {vm : Vm} {va : Word} {offset : Nat} (st : StoreOp)
    (hstart : ramOffset vm va = some offset) (hspared : TablesSpared vm va st.size)
    (h : ∀ regs, StoresCompose (withRegs vm regs) va st.size) (k : Nat) :
    (∀ i, i < st.size.bytes →
      afterProbe vm va offset st k (va + BitVec.ofNat 32 i) = .ok (byteOf (probe k) i)) ∧
    ∀ x, (∀ i, i < st.size.bytes → ramOffset vm x ≠ ramOffset vm (va + BitVec.ofNat 32 i)) →
      afterProbe vm va offset st k x = yields vm x := by
  set s := withRegs vm (probeRegs va (probe k))
  have hready := ready_entryCpu evenHostCode
  have hva : s.hart.registers 1 + probeParam 0 = va := BitVec.add_zero va
  have hstart' : ramOffset s va = some offset := hstart
  have hclaim := h (probeRegs va (probe k)) evenHostCode (entryCpu evenHostCode) probeParam 1 2
    st rfl hready rfl rfl hva
  have hblock := runBlock_store st hstart' hready rfl rfl hva
  have hboth := wp_and hclaim hblock
  have hafter : ∀ x, yields (stored s va offset st.size (st.narrow (s.hart.registers 2))) x =
      afterProbe vm va offset st k x := by
    intro x
    rw [yields_stored hstart' (tablesSpared_withRegs hspared _), touched_withRegs, yields_withRegs]
    rfl
  unfold Wp at hboth
  cases hrun : runBlock evenHostCode (storeIndicator st) probeParam (entryCpu evenHostCode) s with
  | error e t =>
      rw [hrun] at hboth
      exact hboth.1.elim
  | ok a t =>
      rw [hrun] at hboth
      obtain ⟨⟨hbytes, hframe⟩, -, hyields⟩ := hboth
      constructor
      · intro i hi
        rw [← hafter, ← hyields]
        exact hbytes i hi
      · intro x hx
        rw [← hafter, ← hyields, hframe x hx, yields_withRegs]

/-- The bytes of the two probes differ. -/
theorem byteOf_probe_ne {i j : Nat} (hi : i < 4) (hj : j < 4) :
    byteOf (probe 0) i ≠ byteOf (probe 1) j := by
  rw [byteOf_probe 0 hi, byteOf_probe 1 hj, if_pos rfl, if_neg (by decide)]
  intro h
  have := ofNat_byte_inj (by omega) (by omega) h
  omega

theorem size_le_four (st : StoreOp) : st.size.bytes ≤ 4 := by
  cases st <;> decide

/-- If stores compose, every byte is where the access puts it. -/
theorem contiguous_of_compose {vm : Vm} {va : Word} {offset : Nat} (st : StoreOp)
    (hstart : ramOffset vm va = some offset) (hspared : TablesSpared vm va st.size)
    (h : ∀ regs, StoresCompose (withRegs vm regs) va st.size) :
    Contiguous (touched vm va) va st.size := by
  have hsmall := size_le_four st
  refine ⟨offset, fun i hi => ?_⟩
  have hzero := (afterProbe_of_compose st hstart hspared h 0).1 i hi
  have hone := (afterProbe_of_compose st hstart hspared h 1).1 i hi
  unfold afterProbe at hzero hone
  cases ho : ramOffset (touched vm va) (va + BitVec.ofNat 32 i) with
  | none =>
      -- what is not in main memory is the same after both probes
      simp only [ho] at hzero hone
      rw [hzero] at hone
      exact absurd (Except.ok.inj hone) (byteOf_probe_ne (by omega) (by omega))
  | some o =>
      simp only [ho, Except.ok.injEq] at hzero hone
      congr 1
      by_cases hin : offset ≤ o ∧ o < offset + st.size.bytes
      · -- inside the stored bytes the probe says which one it is
        obtain ⟨j, rfl⟩ : ∃ j, o = offset + j := ⟨o - offset, by omega⟩
        have hj : j < st.size.bytes := by omega
        rw [byte_stored st _ _ _ hj, byteOf_probe 0 (by omega), byteOf_probe 0 (by omega),
          if_pos rfl, if_pos rfl] at hzero
        rw [ofNat_byte_inj (by omega) (by omega) hzero]
      · -- outside them the old byte would have to equal byte `i` of both probes
        rw [storeBytes_of_not_mem hin] at hzero hone
        rw [hzero] at hone
        exact absurd hone (byteOf_probe_ne (by omega) (by omega))

/-- If stores compose, the TLB entry they need moves no byte read apart from them. -/
theorem steady_of_compose {vm : Vm} {va : Word} {offset : Nat} (st : StoreOp)
    (hstart : ramOffset vm va = some offset) (hspared : TablesSpared vm va st.size)
    (h : ∀ regs, StoresCompose (withRegs vm regs) va st.size) : Steady vm va st.size := by
  have hsmall := size_le_four st
  obtain ⟨o, hoffset⟩ := contiguous_of_compose st hstart hspared h
  have hfirst := (contiguous_start hoffset).1
  rw [ramOffset_touched hstart] at hfirst
  obtain rfl := Option.some.inj hfirst
  intro x hx
  have hzero := (afterProbe_of_compose st hstart hspared h 0).2 x hx
  have hone := (afterProbe_of_compose st hstart hspared h 1).2 x hx
  unfold afterProbe at hzero hone
  cases ho : ramOffset (touched vm va) x with
  | none =>
      simp only [ho] at hzero
      refine ⟨hzero, fun i hi => ?_⟩
      rw [hoffset i hi]
      exact (Option.some_ne_none _).symm
  | some o =>
      simp only [ho] at hzero hone
      have hout : ¬(offset ≤ o ∧ o < offset + st.size.bytes) := by
        intro hin
        obtain ⟨j, rfl⟩ : ∃ j, o = offset + j := ⟨o - offset, by omega⟩
        have hj : j < st.size.bytes := by omega
        rw [byte_stored st _ _ _ hj] at hzero hone
        rw [← hone] at hzero
        exact byteOf_probe_ne (by omega) (by omega) (Except.ok.inj hzero)
      rw [storeBytes_of_not_mem hout] at hzero
      refine ⟨?_, fun i hi heq => ?_⟩
      · rw [yields_of_ramOffset ho, touched_mainMem]
        exact hzero
      · rw [hoffset i hi] at heq
        exact hout ⟨by have := Option.some.inj heq; omega, by have := Option.some.inj heq; omega⟩

theorem stores_compose_iff {vm : Vm} {va : Word} (st : StoreOp) (hmapped : Mapped vm va st.size)
    (hspared : TablesSpared vm va st.size) :
    (∀ regs, StoresCompose (withRegs vm regs) va st.size) ↔
      Contiguous (touched vm va) va st.size ∧ Steady vm va st.size := by
  obtain ⟨offset, hfirst⟩ := Option.isSome_iff_exists.mp (hmapped 0 (bytes_pos _))
  have hstart : ramOffset vm va = some offset := by rwa [add_zero_index] at hfirst
  constructor
  · intro h
    exact ⟨contiguous_of_compose st hstart hspared h, steady_of_compose st hstart hspared h⟩
  · rintro ⟨hcontiguous, hsteady⟩ regs
    have hcontiguous' : Contiguous (touched (withRegs vm regs) va) va st.size := by
      rw [touched_withRegs]
      exact hcontiguous
    have hstart' : ramOffset (withRegs vm regs) va = some offset := hstart
    exact storesCompose_of_steady hstart' (tablesSpared_withRegs hspared regs) hcontiguous'
      (steady_withRegs hsteady regs)

/-! ## Both -/

theorem ramOffset_touched_of_undisturbed {vm : Vm} {va : Word} {size : AccessSize}
    (h : Undisturbed vm va size) (x : Word) : ramOffset (touched vm va) x = ramOffset vm x := by
  unfold ramOffset
  rw [h.target_eq, touched_mainMem]

theorem steady_of_undisturbed {vm : Vm} {va : Word} {size : AccessSize}
    (h : Undisturbed vm va size) : Steady vm va size := by
  intro x hx
  refine ⟨yields_congr h.target_eq (touched_mainMem vm va) (touched_sameDevices vm va) x,
    fun i hi => ?_⟩
  rw [ramOffset_touched_of_undisturbed h, ramOffset_touched_of_undisturbed h]
  exact hx i hi

/--
Loads compose from byte reads exactly when the bytes behind the first one read
as they do where they are mapped, so whenever the bytes of the access are
consecutive in main memory.  A store apart from the page tables composes
exactly when its bytes are consecutive through the TLB it leaves behind and
that TLB moves no other byte read.  For accesses that move no translation both
come to the bytes being consecutive.
-/
theorem accesses_compose_iff {vm : Vm} {va : Word} (st : StoreOp)
    (hmapped : Mapped vm va st.size) :
    (((∀ regs, LoadsCompose (withRegs vm regs) va st.size) ↔ ReadsAlike vm va st.size) ∧
      (Contiguous vm va st.size → ∀ regs, LoadsCompose (withRegs vm regs) va st.size)) ∧
    (TablesSpared vm va st.size →
      ((∀ regs, StoresCompose (withRegs vm regs) va st.size) ↔
        Contiguous (touched vm va) va st.size ∧ Steady vm va st.size)) ∧
    (Undisturbed vm va st.size →
      (AccessesCompose vm va st.size ↔ Contiguous vm va st.size)) := by
  have hloads : ReadsAlike vm va st.size → ∀ regs, LoadsCompose (withRegs vm regs) va st.size :=
    fun h regs => loadsCompose_of_readsAlike (readsAlike_withRegs h regs)
  have hcontiguous : Contiguous vm va st.size →
      ∀ regs, LoadsCompose (withRegs vm regs) va st.size :=
    fun h => hloads (readsAlike_of_contiguous h)
  refine ⟨⟨⟨readsAlike_of_compose st hmapped, hloads⟩, hcontiguous⟩,
    stores_compose_iff st hmapped, fun hundisturbed => ?_⟩
  have hsame : Contiguous (touched vm va) va st.size ↔ Contiguous vm va st.size := by
    unfold Contiguous
    simp only [ramOffset_touched_of_undisturbed hundisturbed]
  have hstores := stores_compose_iff st hmapped hundisturbed.tablesSpared
  constructor
  · intro h
    exact hsame.mp (hstores.mp fun regs => (h regs).2).1
  · intro h regs
    exact ⟨hcontiguous h regs,
      hstores.mpr ⟨hsame.mpr h, steady_of_undisturbed hundisturbed⟩ regs⟩

/-! ## A machine with page tables -/

/-- Page tables that map `0x4000` to `0x80002000` and `0x5000` to `0x80007000`. -/
def straddleRam : Nat → Byte
  | 0x0000 => 0x01
  | 0x0001 => 0x04
  | 0x0003 => 0x20
  | 0x1010 => 0x0f
  | 0x1011 => 0x08
  | 0x1013 => 0x20
  | 0x1014 => 0x0f
  | 0x1015 => 0x1c
  | 0x1017 => 0x20
  | 0x7000 => 0xaa
  | _ => 0

def straddleVm : Vm :=
  let vm := virtualMachineInit (fun _ => 0) straddleRam
  { vm with hart :=
    { vm.hart with
      privilegeLevel := PRIVILEGE_LEVEL_SUPERVISOR
      csrBlob := Function.update vm.hart.csrBlob CSR_ADDRESS_SATP 0x80080000 } }

/-! ## An access inside one page -/

/-- The frame at `0x80002000` is cached for the page at `0x4000`, over empty page tables. -/
def hitVm : Vm :=
  let vm := virtualMachineInit (fun _ => 0) fun _ => 0
  let entry : TlbEntry :=
    { vaTag := 0x4000, paTag := 0x80002000, pageMask := PAGE_MASK_4K, entryValid := true
      pmr := { addrLow := 0x80000000, addrHigh := 0x90000000, ops := .ram }
      ghostSatp := 0x80080000 }
  { vm with hart :=
    { vm.hart with
      privilegeLevel := PRIVILEGE_LEVEL_SUPERVISOR
      csrBlob := Function.update vm.hart.csrBlob CSR_ADDRESS_SATP 0x80080000
      dtlb := initialTlb.install 4 entry } }

theorem pteAt_hitVm {pa pte : Word} (h : pteAt hitVm pa = some (some pte)) : pte = 0 := by
  unfold pteAt at h
  split at h
  · cases h
  · cases h
  · split at h
    · rw [← Option.some.inj (Option.some.inj h)]
      exact congrArg (BitVec.ofNat 32) (loadBytes_zero _ 4)
    · cases h

/-- The root table lies in the first page of main memory. -/
theorem toNat_level1Address (va : Word) :
    ∃ k, k < 1024 ∧ (level1Address 0x80080000 va).toNat = 0x80000000 + 4 * k := by
  have hbase : (0x80080000 : Word) <<< 12 = 0x80000000 := by decide
  have hlt : ((va >>> 22) &&& 0x3ff).toNat < 1024 := by
    rw [BitVec.toNat_and]
    exact Nat.lt_of_le_of_lt Nat.and_le_right (by decide)
  refine ⟨_, hlt, ?_⟩
  unfold level1Address
  rw [hbase, BitVec.toNat_add, BitVec.toNat_mul]
  show (0x80000000 + _ * 4 % 2 ^ 32) % 2 ^ 32 = _
  omega

theorem sparesTables_hitVm : SparesTables hitVm 0x2001 4 := by
  intro pa hpa pmr hregion hram
  have honly : ∀ r ∈ platformRegions, r.ops = .ram → r.addrLow = 0x80000000 := by decide
  have hlow := honly pmr (searchPmRegionCallback_sound hregion).1 hram
  cases hpa with
  | second va level1Pte read valid inner =>
      -- the empty root table has no entry to descend into
      rw [pteAt_hitVm read] at valid
      cases valid
  | root va =>
      obtain ⟨k, hk, haddress⟩ := toNat_level1Address va
      right
      show (BitVec.setWidth 64 (level1Address 0x80080000 va) - _).toNat + 4 ≤ 0x2001
      rw [hlow, BitVec.toNat_sub, BitVec.toNat_setWidth, BitVec.toNat_setWidth, haddress]
      show (2 ^ 64 - 0x80000000 + (0x80000000 + 4 * k) % 2 ^ 64) % 2 ^ 64 + 4 ≤ 0x2001
      omega

theorem accesses_compose_hit :
    ((Mapped hitVm 0x4001 .b4 ∧ Undisturbed hitVm 0x4001 .b4 ∧ Contiguous hitVm 0x4001 .b4) ∧
      AccessesCompose hitVm 0x4001 .b4) ∧
    (straddleVm.hart.dtlb.vaToTlbEntry 0x4001 = none ∧ Mapped straddleVm 0x4001 .b4 ∧
      Contiguous straddleVm 0x4001 .b4) ∧
      ∀ regs, LoadsCompose (withRegs straddleVm regs) 0x4001 .b4 := by
  have hoffset : ∀ i, i < AccessSize.b4.bytes →
      ramOffset hitVm (0x4001 + BitVec.ofNat 32 i) = some (0x2001 + i) := by decide +kernel
  have hmapped : Mapped hitVm 0x4001 .b4 := by
    intro i hi
    rw [hoffset i hi]
    rfl
  have hundisturbed : Undisturbed hitVm 0x4001 .b4 := by
    intro _
    constructor
    · have hhit : (hitVm.hart.dtlb.vaToTlbEntry 0x4001).isSome = true := by decide +kernel
      obtain ⟨entry, hlook⟩ := Option.isSome_iff_exists.mp hhit
      intro x
      rw [touched_of_hit hlook]
    · intro offset hstart
      have hfirst := hoffset 0 (by decide)
      rw [add_zero_index, hstart] at hfirst
      obtain rfl := Option.some.inj hfirst
      exact sparesTables_hitVm
  have hcontiguous : Contiguous hitVm 0x4001 .b4 := ⟨0x2001, hoffset⟩
  -- the load from an empty TLB walks for its page
  have hwalked : ∀ i, i < AccessSize.b4.bytes →
      ramOffset straddleVm (0x4001 + BitVec.ofNat 32 i) = some (0x2001 + i) := by decide +kernel
  have hmapped' : Mapped straddleVm 0x4001 .b4 := by
    intro i hi
    rw [hwalked i hi]
    rfl
  have hcontiguous' : Contiguous straddleVm 0x4001 .b4 := ⟨0x2001, hwalked⟩
  exact ⟨⟨⟨hmapped, hundisturbed, hcontiguous⟩,
    ((accesses_compose_iff .sw hmapped).2.2 hundisturbed).mpr hcontiguous⟩,
    ⟨by decide +kernel, hmapped', hcontiguous'⟩,
    (accesses_compose_iff .sw hmapped').1.2 hcontiguous'⟩

/-! ## An access that straddles two pages -/

/-- What byte reads find from `0x4ffe` on. -/
def straddleByte (i : Nat) : Byte :=
  if i = 2 then 0xaa else 0

theorem straddling_load_differs :
    Mapped straddleVm 0x4ffe .b4 ∧ ¬AccessesCompose straddleVm 0x4ffe .b4 := by
  have hmapped : Mapped straddleVm 0x4ffe .b4 := by
    unfold Mapped
    decide +kernel
  refine ⟨hmapped, fun hcompose => ?_⟩
  have hload := (hcompose (probeRegs 0x4ffe 0)).1 evenHostCode (entryCpu evenHostCode) probeParam
    1 2 .lw straddleByte rfl (ready_entryCpu _) rfl rfl rfl (by decide +kernel)
  have hrun : isOk (runBlock evenHostCode (loadIndicator .lw) probeParam (entryCpu evenHostCode)
      (withRegs straddleVm (probeRegs 0x4ffe 0))) = true := by decide +kernel
  -- the word comes from `0x80002ffe` on and misses the byte at `0x80007000`
  have hvalue : (finalState (runBlock evenHostCode (loadIndicator .lw) probeParam
      (entryCpu evenHostCode) (withRegs straddleVm (probeRegs 0x4ffe 0)))).hart.registers 2 = 0 := by
    decide +kernel
  obtain ⟨a, heq⟩ := eq_ok_of_isOk hrun
  rw [wp_of_ok heq] at hload
  rw [hload] at hvalue
  revert hvalue
  decide +kernel

end Zelda.Proofs.LittleEndian
