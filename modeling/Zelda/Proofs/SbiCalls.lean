import Zelda.Firmware.Sbi
import Zelda.Proofs.CsrViews
import Zelda.Proofs.DataAccess
import Zelda.Proofs.RegionTable
import Zelda.Vmm.Init
/-!
# What the firmware does to the machine

A CSR macro changes one word of the hart, a store of the firmware one register
of a device.  Every SBI call then has one of four effects on the machine.
-/

namespace Zelda.Proofs.SbiCalls

open Zelda.Vmm
open Zelda.Firmware
open Zelda.Lib.Effect
open Zelda.Proofs.PageWalk
open Zelda.Proofs.Frames
open Zelda.Proofs.DataAccess
open Zelda.Proofs.RegionTable (sortedRegions_platform)

/-! ## CSR macros -/

/-- `mip` after the software bits are given a new value. -/
def pendingWrite (ipending value : Word) : Word :=
  (value &&& 0xaaa &&& ~~~0x888) ||| (ipending &&& 0x888)

def pendingCleared (ipending bits : Word) : Word :=
  pendingWrite ipending (ipending &&& 0xaaa &&& ~~~bits)

def pendingSet (ipending bits : Word) : Word :=
  pendingWrite ipending (ipending &&& 0xaaa ||| bits)

def enableCleared (ienable bits : Word) : Word :=
  ienable &&& 0xaaa &&& ~~~bits &&& 0xaaa

def enableSet (ienable bits : Word) : Word :=
  (ienable &&& 0xaaa ||| bits) &&& 0xaaa

section Bits

variable (blob bits : Word) {i : Nat}

theorem getLsbD_enableCleared (hi : i < 32) :
    (enableCleared blob bits).getLsbD i =
      (blob.getLsbD i && !bits.getLsbD i && (0xaaa : Word).getLsbD i) := by
  unfold enableCleared
  simp only [BitVec.getLsbD_and, BitVec.getLsbD_not, hi, decide_true, Bool.true_and]
  cases (0xaaa : Word).getLsbD i <;> simp

theorem getLsbD_enableSet :
    (enableSet blob bits).getLsbD i =
      ((blob.getLsbD i || bits.getLsbD i) && (0xaaa : Word).getLsbD i) := by
  unfold enableSet
  simp only [BitVec.getLsbD_and, BitVec.getLsbD_or]
  cases (0xaaa : Word).getLsbD i <;> simp

theorem getLsbD_pendingWrite (hi : i < 32) (value : Word) :
    (pendingWrite blob value).getLsbD i =
      if (0x888 : Word).getLsbD i then blob.getLsbD i
      else value.getLsbD i && (0xaaa : Word).getLsbD i := by
  unfold pendingWrite
  simp only [BitVec.getLsbD_and, BitVec.getLsbD_or, BitVec.getLsbD_not, hi, decide_true,
    Bool.true_and]
  cases (0x888 : Word).getLsbD i <;> simp

end Bits

/-- Software bits are cleared one by one; the machine bits stay with the devices. -/
theorem getLsbD_pendingCleared (ipending bits : Word) {i : Nat} (hi : i < 32)
    (hsoftware : (0x222 : Word).getLsbD i = true) :
    (pendingCleared ipending bits).getLsbD i = (ipending.getLsbD i && !bits.getLsbD i) := by
  unfold pendingCleared
  rw [getLsbD_pendingWrite _ hi]
  rcases CsrViews.exposed_cases hi hsoftware with rfl | rfl | rfl <;> simp

theorem getLsbD_pendingSet (ipending bits : Word) {i : Nat} (hi : i < 32)
    (hsoftware : (0x222 : Word).getLsbD i = true) :
    (pendingSet ipending bits).getLsbD i = (ipending.getLsbD i || bits.getLsbD i) := by
  unfold pendingSet
  rw [getLsbD_pendingWrite _ hi]
  rcases CsrViews.exposed_cases hi hsoftware with rfl | rfl | rfl <;> simp

theorem csrAt_apply {address : CsrAddress} {csr : CsrEntry} (h : csrEntryAt address = some csr)
    (s : Vm) : csrAt address s = .ok csr s := by
  unfold csrAt
  rw [h]
  rfl

theorem readCsr_blob {address : CsrAddress}
    (h : csrEntryAt address = some (blobCsrEntry address WPRI_MASK_ALL)) (s : Vm) :
    readCsr address s = .ok (s.hart.csrBlob address) s := by
  unfold readCsr
  rw [bind_apply_ok (csrAt_apply h s)]
  show EStateM.Result.ok (s.hart.csrBlob address &&& BitVec.allOnes 32) s = _
  rw [BitVec.and_allOnes]

theorem readCsr_readOnlyBlob {address : CsrAddress}
    (h : csrEntryAt address = some (readOnlyBlobCsrEntry address)) (s : Vm) :
    readCsr address s = .ok (s.hart.csrBlob address) s := by
  unfold readCsr
  rw [bind_apply_ok (csrAt_apply h s)]
  show EStateM.Result.ok (s.hart.csrBlob address &&& BitVec.allOnes 32) s = _
  rw [BitVec.and_allOnes]

theorem writeCsr_blob {address : CsrAddress}
    (h : csrEntryAt address = some (blobCsrEntry address WPRI_MASK_ALL)) (value : Word) (s : Vm) :
    writeCsr address value s = .ok () { s with hart := s.hart.setCsrBlob address value } := by
  unfold writeCsr
  rw [bind_apply_ok (csrAt_apply h s)]
  show EStateM.Result.ok ()
    { s with hart := s.hart.setCsrBlob address (value &&& BitVec.allOnes 32) } = _
  rw [BitVec.and_allOnes]

theorem readCsr_mcause (s : Vm) :
    readCsr CSR_ADDRESS_MCAUSE s = .ok (s.hart.csrBlob CSR_ADDRESS_MCAUSE) s :=
  readCsr_blob rfl s

theorem readCsr_mepc (s : Vm) :
    readCsr CSR_ADDRESS_MEPC s = .ok (s.hart.csrBlob CSR_ADDRESS_MEPC) s :=
  readCsr_blob rfl s

theorem writeCsr_mepc (value : Word) (s : Vm) :
    writeCsr CSR_ADDRESS_MEPC value s =
      .ok () { s with hart := s.hart.setCsrBlob CSR_ADDRESS_MEPC value } :=
  writeCsr_blob rfl value s

theorem currentHartid_apply (s : Vm) :
    currentHartid s = .ok (BitVec.ofNat 32 s.hart.hartId) s := by
  have h : csrEntryAt CSR_MHARTID = some mhartidCsrEntry := rfl
  unfold currentHartid readCsr
  rw [bind_apply_ok (csrAt_apply h s)]
  show EStateM.Result.ok (BitVec.ofNat 32 s.hart.hartId &&& BitVec.allOnes 32) s = _
  rw [BitVec.and_allOnes]

theorem clearCsr_mip (bits : Word) (s : Vm) :
    clearCsr CSR_ADDRESS_MIP bits s =
      .ok () { s with hart := { s.hart with ipending := pendingCleared s.hart.ipending bits } } := by
  have h : csrEntryAt CSR_ADDRESS_MIP = some mipCsrEntry := rfl
  unfold clearCsr
  rw [bind_apply_ok (csrAt_apply h s)]
  rfl

theorem setCsr_mip (bits : Word) (s : Vm) :
    setCsr CSR_ADDRESS_MIP bits s =
      .ok () { s with hart := { s.hart with ipending := pendingSet s.hart.ipending bits } } := by
  have h : csrEntryAt CSR_ADDRESS_MIP = some mipCsrEntry := rfl
  unfold setCsr
  rw [bind_apply_ok (csrAt_apply h s)]
  rfl

theorem clearCsr_mie (bits : Word) (s : Vm) :
    clearCsr CSR_ADDRESS_MIE bits s =
      .ok () { s with hart := { s.hart with ienable := enableCleared s.hart.ienable bits } } := by
  have h : csrEntryAt CSR_ADDRESS_MIE = some mieCsrEntry := rfl
  unfold clearCsr
  rw [bind_apply_ok (csrAt_apply h s)]
  rfl

theorem setCsr_mie (bits : Word) (s : Vm) :
    setCsr CSR_ADDRESS_MIE bits s =
      .ok () { s with hart := { s.hart with ienable := enableSet s.hart.ienable bits } } := by
  have h : csrEntryAt CSR_ADDRESS_MIE = some mieCsrEntry := rfl
  unfold setCsr
  rw [bind_apply_ok (csrAt_apply h s)]
  rfl

/-! ## The memory map -/

def bootromRegion : PmRegion := { addrLow := 0x00000000, addrHigh := 0x00400000, ops := .bootrom }
def clintRegion : PmRegion := { addrLow := 0x02000000, addrHigh := 0x02010000, ops := .clint }
def uartRegion : PmRegion := { addrLow := 0x10000000, addrHigh := 0x10000100, ops := .uart }
def sysconRegion : PmRegion := { addrLow := 0x00400000, addrHigh := 0x00401000, ops := .syscon }

/-- The machine the firmware is built for. -/
structure Platform (vm : Vm) : Prop where
  pmrOps : vm.pmrOps = platformRegions
  clintBase : vm.clint.base = CLINT_BASE
  hartId : vm.hart.hartId < vm.clint.nrHarts

theorem pagingOn_machine {h : Hart} (hm : h.privilegeLevel = PRIVILEGE_LEVEL_MACHINE) :
    h.pagingOn = false := by
  unfold Hart.pagingOn
  rw [hm]
  rfl

section Access

variable {s : Vm} {pmr : PmRegion} {address : Word}

theorem target_machine (hops : s.pmrOps = platformRegions)
    (hm : s.hart.privilegeLevel = PRIVILEGE_LEVEL_MACHINE) (hmem : pmr ∈ platformRegions)
    (hlow : pmr.addrLow ≤ address) (hhigh : address < pmr.addrHigh) :
    target s address = .region pmr address := by
  unfold target
  rw [pagingOn_machine hm, hops,
    searchPmRegionCallback_complete sortedRegions_platform hmem hlow hhigh]
  rfl

theorem touched_machine (hm : s.hart.privilegeLevel = PRIVILEGE_LEVEL_MACHINE) :
    touched s address = s := by
  unfold touched
  rw [if_neg (by rw [pagingOn_machine hm]; decide)]

theorem vmread_machine (hops : s.pmrOps = platformRegions)
    (hm : s.hart.privilegeLevel = PRIVILEGE_LEVEL_MACHINE) (hmem : pmr ∈ platformRegions)
    (hlow : pmr.addrLow ≤ address) (hhigh : address < pmr.addrHigh) (size : AccessSize) :
    vmread address size s = pmr.pmrRead address size s := by
  rw [vmread_apply, target_machine hops hm hmem hlow hhigh, touched_machine hm]

theorem vmwrite_machine (hops : s.pmrOps = platformRegions)
    (hm : s.hart.privilegeLevel = PRIVILEGE_LEVEL_MACHINE) (hmem : pmr ∈ platformRegions)
    (hlow : pmr.addrLow ≤ address) (hhigh : address < pmr.addrHigh) (size : AccessSize)
    (value : DWord) : vmwrite address size value s = pmr.pmrWrite address size value s := by
  rw [vmwrite_apply, target_machine hops hm hmem hlow hhigh, touched_machine hm]

end Access

/-! ## Stores to the CLINT -/

section Store

variable {s : Vm} (hp : Platform s) (hm : s.hart.privilegeLevel = PRIVILEGE_LEVEL_MACHINE)
include hp hm

/-- A store of the firmware into the CLINT is a write of the device. -/
theorem store32_clint {offset : Nat} (hoffset : offset < 0x10000) (value : Word) :
    store32 (CLINT_BASE + BitVec.ofNat 32 offset) value s =
      .ok () { s with
        clint := s.clint.write (CLINT_BASE + BitVec.ofNat 32 offset) .b4 (value.setWidth 64) } := by
  have haddress : (CLINT_BASE + BitVec.ofNat 32 offset).toNat = 0x02000000 + offset := by
    rw [BitVec.toNat_add, BitVec.toNat_ofNat]
    show (0x02000000 + offset % 2 ^ 32) % 2 ^ 32 = _
    omega
  have hmem : clintRegion ∈ platformRegions := by decide
  have hlow : clintRegion.addrLow ≤ CLINT_BASE + BitVec.ofNat 32 offset := by
    rw [BitVec.le_def, haddress]
    show 0x02000000 ≤ _
    omega
  have hhigh : CLINT_BASE + BitVec.ofNat 32 offset < clintRegion.addrHigh := by
    rw [BitVec.lt_def, haddress]
    show _ < 0x02010000
    omega
  unfold store32
  rw [vmwrite_machine hp.pmrOps hm hmem hlow hhigh]
  rfl

end Store

theorem clint_offset {c : Clint} (hbase : c.base = CLINT_BASE) {offset : Nat}
    (hoffset : offset < 0x10000) :
    (CLINT_BASE + BitVec.ofNat 32 offset - c.base).toNat = offset := by
  rw [hbase, BitVec.add_comm, BitVec.add_sub_cancel, BitVec.toNat_ofNat]
  omega

theorem clint_write_msip {c : Clint} (hbase : c.base = CLINT_BASE) {id : Nat}
    (hid : id < c.nrHarts) (value : DWord) :
    c.write (CLINT_BASE + BitVec.ofNat 32 (4 * id)) .b4 value =
      { c with msip := Function.update c.msip id ((value &&& 1#64).setWidth 32) } := by
  have hle : id < 64 := Nat.lt_of_lt_of_le hid c.nrHarts_le
  unfold Clint.write
  simp only [clint_offset hbase (show 4 * id < 0x10000 by omega)]
  have hrange : CLINT_REG_MSIP ≤ 4 * id ∧ 4 * id < CLINT_REG_MSIP + 4 * MAX_NR_HARTS := by
    unfold CLINT_REG_MSIP MAX_NR_HARTS
    omega
  have hindex : (4 * id - CLINT_REG_MSIP) / 4 = id := by
    unfold CLINT_REG_MSIP
    omega
  rw [if_pos hrange, hindex, if_pos hid]

/-- One half of a comparator is written: the low one at an even word, the high one after it. -/
theorem clint_write_mtimecmp {c : Clint} (hbase : c.base = CLINT_BASE) {id : Nat}
    (hid : id < c.nrHarts) (high : Bool) (value : DWord) :
    c.write (CLINT_BASE + BitVec.ofNat 32 (0x4000 + 8 * id + if high then 4 else 0)) .b4 value =
      { c with
        mtimecmp := Function.update c.mtimecmp id
          (if high then Clint.setHigh (c.mtimecmp id) value
            else Clint.setLow (c.mtimecmp id) value) } := by
  have hle : id < 64 := Nat.lt_of_lt_of_le hid c.nrHarts_le
  have hhalf : (if high then 4 else 0) ≤ 4 := by
    split <;> omega
  generalize hoffset : 0x4000 + 8 * id + (if high then 4 else 0) = offset
  unfold Clint.write
  simp only [clint_offset hbase (show offset < 0x10000 by omega)]
  have hmsip : ¬(CLINT_REG_MSIP ≤ offset ∧ offset < CLINT_REG_MSIP + 4 * MAX_NR_HARTS) := by
    unfold CLINT_REG_MSIP MAX_NR_HARTS
    omega
  have hrange : CLINT_REG_MTIMECMP ≤ offset ∧ offset < CLINT_REG_MTIMECMP + 8 * MAX_NR_HARTS := by
    unfold CLINT_REG_MTIMECMP MAX_NR_HARTS
    omega
  have hindex : (offset - CLINT_REG_MTIMECMP) / 8 = id := by
    unfold CLINT_REG_MTIMECMP
    omega
  have hword : offset / 4 % 2 = 1 ↔ high = true := by
    cases high with
    | false =>
        have heven : 0x4000 + 8 * id + 0 = offset := hoffset
        simp only [Bool.false_eq_true, iff_false]
        omega
    | true =>
        have hodd : 0x4000 + 8 * id + 4 = offset := hoffset
        simp only [iff_true]
        omega
  rw [if_neg hmsip, if_pos hrange, hindex, if_pos hid, if_neg (by decide)]
  simp only [hword]

/-! ## Timers and software interrupts -/

/-- A comparator written in three halves, the high one parked in between. -/
theorem mtimecmp_halves (cmp next : DWord) :
    Clint.setHigh (Clint.setLow (Clint.setHigh cmp ((0xffffffff : Word).setWidth 64))
      ((next.setWidth 32).setWidth 64)) (((next >>> 32).setWidth 32).setWidth 64) = next := by
  have hlow : ∀ i, i < 64 → (0xffffffff#64).getLsbD i = decide (i < 32) := by decide
  apply BitVec.eq_of_getLsbD_eq
  intro i hi
  unfold Clint.setHigh Clint.setLow
  simp only [BitVec.getLsbD_or, BitVec.getLsbD_and, BitVec.getLsbD_not, BitVec.getLsbD_shiftLeft,
    BitVec.getLsbD_setWidth, BitVec.getLsbD_ushiftRight, hlow i hi]
  by_cases hhalf : i < 32
  · simp [hhalf, hi]
  · have hindex : 32 + (i - 32) = i := by omega
    have hsub : i - 32 < 32 := by omega
    have hsub' : i - 32 < 64 := by omega
    simp [hhalf, hi, hindex, hsub, hsub']

/-- The machine after `sbi_set_timer`. -/
def armed (next : DWord) (s : Vm) : Vm :=
  { s with
    hart := { s.hart with
      ienable := enableSet s.hart.ienable MIE_MTIE
      ipending := pendingCleared s.hart.ipending MIP_STIP }
    clint := { s.clint with
      mtimecmp := Function.update s.clint.mtimecmp s.hart.hartId next } }

/-- The hart's comparator replaced. -/
def withMtimecmp (s : Vm) (cmp : DWord) : Vm :=
  { s with
    clint := { s.clint with
      mtimecmp := Function.update s.clint.mtimecmp s.hart.hartId cmp } }

theorem withMtimecmp_read (s : Vm) (cmp : DWord) :
    (withMtimecmp s cmp).clint.mtimecmp (withMtimecmp s cmp).hart.hartId = cmp := by
  exact Function.update_self _ _ _

theorem withMtimecmp_write (s : Vm) (cmp cmp' : DWord) :
    withMtimecmp (withMtimecmp s cmp) cmp' = withMtimecmp s cmp' := by
  unfold withMtimecmp
  simp only [Function.update_idem]

theorem Platform.withMtimecmp {s : Vm} (hp : Platform s) (cmp : DWord) :
    Platform (withMtimecmp s cmp) :=
  ⟨hp.pmrOps, hp.clintBase, hp.hartId⟩

section Store

variable {s : Vm} (hp : Platform s) (hm : s.hart.privilegeLevel = PRIVILEGE_LEVEL_MACHINE)
include hp hm

theorem store32_mtimecmp (high : Bool) (value : Word) :
    store32 (CLINT_BASE + BitVec.ofNat 32 (0x4000 + 8 * s.hart.hartId + if high then 4 else 0))
        value s =
      .ok () (withMtimecmp s
        (if high then Clint.setHigh (s.clint.mtimecmp s.hart.hartId) (value.setWidth 64)
          else Clint.setLow (s.clint.mtimecmp s.hart.hartId) (value.setWidth 64))) := by
  have hid := hp.hartId
  have hle : s.hart.hartId < 64 := Nat.lt_of_lt_of_le hid s.clint.nrHarts_le
  have hhalf : (if high then 4 else 0) ≤ 4 := by
    split <;> omega
  rw [store32_clint hp hm (by omega), clint_write_mtimecmp hp.clintBase hid]
  rfl

/-- A store to the low half of the comparator of this hart. -/
theorem store32_mtimecmp_low (value : Word) :
    store32 (CLINT_BASE + CLINT_MTIMECMP_OFFSET + 8 * BitVec.ofNat 32 s.hart.hartId) value s =
      .ok () (withMtimecmp s
        (Clint.setLow (s.clint.mtimecmp s.hart.hartId) (value.setWidth 64))) := by
  have haddress : CLINT_BASE + CLINT_MTIMECMP_OFFSET + 8 * BitVec.ofNat 32 s.hart.hartId =
      CLINT_BASE + BitVec.ofNat 32 (0x4000 + 8 * s.hart.hartId + if false then 4 else 0) := by
    apply BitVec.eq_of_toNat_eq
    simp [CLINT_BASE, CLINT_MTIMECMP_OFFSET, BitVec.toNat_add, BitVec.toNat_mul]
    omega
  rw [haddress]
  exact store32_mtimecmp hp hm false value

/-- A store to its high half. -/
theorem store32_mtimecmp_high (value : Word) :
    store32 (CLINT_BASE + CLINT_MTIMECMP_OFFSET + 8 * BitVec.ofNat 32 s.hart.hartId + 4) value s =
      .ok () (withMtimecmp s
        (Clint.setHigh (s.clint.mtimecmp s.hart.hartId) (value.setWidth 64))) := by
  have haddress : CLINT_BASE + CLINT_MTIMECMP_OFFSET + 8 * BitVec.ofNat 32 s.hart.hartId + 4 =
      CLINT_BASE + BitVec.ofNat 32 (0x4000 + 8 * s.hart.hartId + if true then 4 else 0) := by
    apply BitVec.eq_of_toNat_eq
    simp [CLINT_BASE, CLINT_MTIMECMP_OFFSET, BitVec.toNat_add, BitVec.toNat_mul]
    omega
  rw [haddress]
  exact store32_mtimecmp hp hm true value

theorem sbiSetTimer_apply (next : DWord) : sbiSetTimer next s = .ok () (armed next s) := by
  let parked := Clint.setHigh (s.clint.mtimecmp s.hart.hartId) ((0xffffffff : Word).setWidth 64)
  let half := Clint.setLow parked ((next.setWidth 32).setWidth 64)
  have hpark : store32 (CLINT_BASE + CLINT_MTIMECMP_OFFSET + 8 * BitVec.ofNat 32 s.hart.hartId + 4)
      0xffffffff s = .ok () (withMtimecmp s parked) :=
    store32_mtimecmp_high hp hm _
  have hfirst : store32 (CLINT_BASE + CLINT_MTIMECMP_OFFSET + 8 * BitVec.ofNat 32 s.hart.hartId)
      (next.setWidth 32) (withMtimecmp s parked) = .ok () (withMtimecmp s half) := by
    refine (store32_mtimecmp_low (hp.withMtimecmp parked) hm _).trans ?_
    rw [withMtimecmp_read, withMtimecmp_write]
  have hsecond : store32 (CLINT_BASE + CLINT_MTIMECMP_OFFSET + 8 * BitVec.ofNat 32 s.hart.hartId + 4)
      ((next >>> 32).setWidth 32) (withMtimecmp s half) = .ok () (withMtimecmp s next) := by
    refine (store32_mtimecmp_high (hp.withMtimecmp half) hm _).trans ?_
    rw [withMtimecmp_read, withMtimecmp_write, mtimecmp_halves]
  unfold sbiSetTimer
  rw [bind_apply_ok (currentHartid_apply s), bind_apply_ok hpark, bind_apply_ok hfirst,
    bind_apply_ok hsecond, bind_apply_ok (clearCsr_mip _ _), setCsr_mie]
  rfl

theorem sbiSendIpi_apply {hart : Word} (hhart : hart.toNat < s.clint.nrHarts) :
    sbiSendIpi hart s = .ok () { s with
      clint := { s.clint with msip := Function.update s.clint.msip hart.toNat 1 } } := by
  have hle : hart.toNat < 64 := Nat.lt_of_lt_of_le hhart s.clint.nrHarts_le
  have haddress : CLINT_BASE + CLINT_MSIP_OFFSET + 4 * hart =
      CLINT_BASE + BitVec.ofNat 32 (4 * hart.toNat) := by
    apply BitVec.eq_of_toNat_eq
    simp [CLINT_BASE, CLINT_MSIP_OFFSET, BitVec.toNat_add, BitVec.toNat_mul]
  unfold sbiSendIpi
  rw [haddress, store32_clint hp hm (by omega), clint_write_msip hp.clintBase hhart]
  rfl

end Store

/-! ## Calls that stay off the timer -/

/-- Caches, console and interrupt controller may change, nothing else. -/
def Local (s t : Vm) : Prop :=
  t = { s with
    hart := { s.hart with
      itlb := t.hart.itlb, dtlb := t.hart.dtlb, pcMappings := t.hart.pcMappings
      translationCachePtr := t.hart.translationCachePtr }
    plic := t.plic, uart := t.uart, hostOutput := t.hostOutput }

theorem Local.refl (s : Vm) : Local s s := rfl

theorem Local.trans {s t u : Vm} (h : Local s t) (h' : Local t u) : Local s u := by
  rw [Local] at h h' ⊢
  rw [h', h]

theorem Local.platform {s t : Vm} (h : Local s t) (hp : Platform s) : Platform t := by
  rw [Local] at h
  rw [h]
  exact ⟨hp.pmrOps, hp.clintBase, hp.hartId⟩

theorem Local.privilegeLevel {s t : Vm} (h : Local s t) :
    t.hart.privilegeLevel = s.hart.privilegeLevel := by
  rw [Local] at h
  rw [h]

/-- Whichever way a call of the firmware fails, it does not return. -/
def Never (_ : Abort) (_ : Vm) : Prop :=
  True

section Console

variable {s : Vm} (hp : Platform s) (hm : s.hart.privilegeLevel = PRIVILEGE_LEVEL_MACHINE)
include hp hm

theorem ends_uartLoad {register : Word} (hreg : register.toNat < 0x100) :
    Ends (Local s) Never (uartLoad register) := by
  intro t ht
  have haddress : (UART16550_BASE + register).toNat = 0x10000000 + register.toNat := by
    rw [BitVec.toNat_add]
    show (0x10000000 + register.toNat) % 2 ^ 32 = _
    omega
  have hread : vmread (UART16550_BASE + register) .b1 t =
      uartRegion.pmrRead (UART16550_BASE + register) .b1 t := by
    refine vmread_machine (ht.platform hp).pmrOps (ht.privilegeLevel.trans hm) (by decide) ?_ ?_ _
    · rw [BitVec.le_def, haddress]
      show 0x10000000 ≤ _
      omega
    · rw [BitVec.lt_def, haddress]
      show _ < 0x10000100
      omega
  have hcall : uartLoad register t = .ok
      ((t.uart.readReg (UART16550_BASE + register - UART_16550_BASE).toNat).1.setWidth 64 |>.setWidth 8)
      { t with
        uart := (t.uart.readReg (UART16550_BASE + register - UART_16550_BASE).toNat).2
        plic := t.plic.setPending PLIC_IRQ_UART0
          (t.uart.readReg (UART16550_BASE + register - UART_16550_BASE).toNat).2.interruptPending }
      := by
    unfold uartLoad
    rw [bind_apply, hread]
    rfl
  rw [wp_of_ok hcall]
  exact ht.trans rfl

theorem ends_uart16550Putchar (ch : Byte) : Ends (Local s) Never (uart16550Putchar ch) := by
  unfold uart16550Putchar
  refine ends_bind (ends_uartLoad hp hm (by decide)) fun lsr => ends_ite ?_ ?_
  · exact ends_throw fun _ _ => trivial
  · intro t ht
    have hwrite : vmwrite (UART16550_BASE + UART_REG_QUEUE) .b1 (ch.setWidth 64) t =
        uartRegion.pmrWrite (UART16550_BASE + UART_REG_QUEUE) .b1 (ch.setWidth 64) t :=
      vmwrite_machine (ht.platform hp).pmrOps (ht.privilegeLevel.trans hm) (by decide) (by decide)
        (by decide) _ _
    unfold Wp
    rw [hwrite]
    exact ht.trans rfl

theorem ends_uart16550Getchar : Ends (Local s) Never uart16550Getchar := by
  unfold uart16550Getchar
  refine ends_bind (ends_uartLoad hp hm (by decide)) fun lsr => ends_ite ?_ (ends_pure _)
  exact ends_bind (ends_uartLoad hp hm (by decide)) fun _ => ends_pure _

end Console

/-! ## Dispatch -/

/-- The deadline a call asks for, in either form of the timer call. -/
def requests (frame : TrapFrame) : Option DWord :=
  if frame REG_A7 = SBI_EXT_LEGACY_SET_TIMER ∨ frame REG_A7 = SBI_EXT_TIME ∧ frame REG_A6 = 0 then
    some (frameDeadline frame)
  else
    none

/-- An IPI call selects only harts the machine has. -/
def NamesHarts (frame : TrapFrame) (vm : Vm) : Prop :=
  frame REG_A7 = SBI_EXT_IPI → frame REG_A6 = 0 →
    ∀ bit, bit < 32 → frame REG_A0 &&& (1#32 <<< bit) ≠ 0 →
      (frame REG_A1 + BitVec.ofNat 32 bit).toNat < vm.clint.nrHarts

/-- The extension and function ids the firmware implements. -/
def Supported (frame : TrapFrame) : Prop :=
  frame REG_A7 ≤ SBI_EXT_LEGACY_SHUTDOWN ∨
    frame REG_A7 = SBI_EXT_BASE ∧ frame REG_A6 ≤ SBI_BASE_GET_MIMPID ∨
    frame REG_A7 = SBI_EXT_TIME ∧ frame REG_A6 = 0 ∨
    frame REG_A7 = SBI_EXT_IPI ∧ frame REG_A6 = 0 ∨
    frame REG_A7 = SBI_EXT_RFENCE ∧ frame REG_A6 ≤ 2 ∨
    frame REG_A7 = SBI_EXT_SRST ∧ frame REG_A6 = 0

/-- What an SBI call can do to the machine. -/
inductive Effect (frame : TrapFrame) (s : Vm) : Vm → Prop
  | timer {next : DWord} (request : requests frame = some next) : Effect frame s (armed next s)
  | clearIpi (id : frame REG_A7 = SBI_EXT_LEGACY_CLEAR_IPI) :
      Effect frame s
        { s with hart := { s.hart with ipending := pendingCleared s.hart.ipending MIP_SSIP } }
  | ipi (msip : Nat → Word) (request : requests frame = none) :
      Effect frame s { s with clint := { s.clint with msip := msip } }
  | other {t : Vm} (request : requests frame = none) (stays : Local s t) : Effect frame s t

theorem requests_eq_some {frame : TrapFrame}
    (h : frame REG_A7 = SBI_EXT_LEGACY_SET_TIMER ∨
      frame REG_A7 = SBI_EXT_TIME ∧ frame REG_A6 = 0) :
    requests frame = some (frameDeadline frame) :=
  if_pos h

theorem requests_eq_none {frame : TrapFrame} (hlegacy : frame REG_A7 ≠ SBI_EXT_LEGACY_SET_TIMER)
    (htime : frame REG_A7 = SBI_EXT_TIME → frame REG_A6 ≠ 0) : requests frame = none := by
  apply if_neg
  rintro (h | ⟨h, h'⟩)
  · exact hlegacy h
  · exact htime h h'

/-- A call whose extension id is neither of the timer's. -/
theorem requests_of_id {frame : TrapFrame} {id : Word} (hid : frame REG_A7 = id)
    (hlegacy : id ≠ SBI_EXT_LEGACY_SET_TIMER) (htime : id ≠ SBI_EXT_TIME) :
    requests frame = none := by
  apply requests_eq_none
  · rw [hid]
    exact hlegacy
  · intro h
    exact absurd (hid.symm.trans h) htime

theorem wp_any {α : Type} (m : VmM α) (s : Vm) : Wp m (fun _ _ => True) Never s := by
  unfold Wp
  cases m s <;> exact trivial

theorem wp_bind_any {α β : Type} {m : VmM α} {f : α → VmM β} {Q : β → Vm → Prop}
    (hf : ∀ a t, Wp (f a) Q Never t) (s : Vm) : Wp (m >>= f) Q Never s := by
  rw [wp_bind]
  exact wp_mono (wp_any m s) (fun a t _ => hf a t) fun _ _ h => h

theorem wp_hang {α : Type} {Q : α → Vm → Prop} (s : Vm) : Wp hang Q Never s :=
  trivial

/-- `sbi_shutdown` does not come back. -/
theorem wp_sbiShutdown {Q : Unit → Vm → Prop} (s : Vm) : Wp sbiShutdown Q Never s := by
  unfold sbiShutdown
  exact wp_bind_any (fun _ => wp_bind_any fun _ => wp_hang) s

/-- Nor does `fw_fatal`. -/
theorem wp_fwFatal {α : Type} {Q : α → Vm → Prop} (what : CString) (mcause mepc mtval : Word)
    (s : Vm) : Wp (fwFatal what mcause mepc mtval) Q Never s := by
  unfold fwFatal
  exact wp_bind_any (fun _ => wp_bind_any fun _ => wp_bind_any fun _ => wp_hang) s

section Calls

variable {s : Vm} (hp : Platform s) (hm : s.hart.privilegeLevel = PRIVILEGE_LEVEL_MACHINE)
variable {frame : TrapFrame}

/-- A computation that keeps to caches and console, in a call that arms no timer. -/
theorem effect_of_local {α : Type} {m : VmM α} (hends : Ends (Local s) Never m)
    (hrequest : requests frame = none) : Wp m (fun _ t => Effect frame s t) Never s := by
  refine wp_mono (hends s (Local.refl s)) ?_ fun _ _ h => h
  intro _ t ht
  exact .other hrequest ht

include hp hm

theorem legacyResult_spec (hlegacy : frame REG_A7 ≤ SBI_EXT_LEGACY_SHUTDOWN) :
    Wp (legacyResult frame (frame REG_A7)) (fun _ t => Effect frame s t) Never s := by
  unfold legacyResult
  split
  case isTrue hid =>
    rw [wp_bind, wp_of_ok (sbiSetTimer_apply hp hm _)]
    exact .timer (requests_eq_some (.inl hid))
  case isFalse hzero =>
  split
  case isTrue hid =>
    refine effect_of_local ?_ (requests_of_id hid (by decide) (by decide))
    exact ends_bind (ends_uart16550Putchar hp hm _) fun _ => ends_pure _
  split
  case isTrue hid =>
    exact effect_of_local (ends_uart16550Getchar hp hm) (requests_of_id hid (by decide) (by decide))
  split
  case isTrue hid =>
    rw [wp_bind, wp_of_ok (clearCsr_mip _ s)]
    exact .clearIpi hid
  split
  case isTrue hid =>
    have hle : s.hart.hartId < 64 := Nat.lt_of_lt_of_le hp.hartId s.clint.nrHarts_le
    have hself : (BitVec.ofNat 32 s.hart.hartId).toNat < s.clint.nrHarts := by
      rw [BitVec.toNat_ofNat, Nat.mod_eq_of_lt (by omega)]
      exact hp.hartId
    rw [wp_bind, wp_of_ok (currentHartid_apply s), wp_bind,
      wp_of_ok (sbiSendIpi_apply hp hm hself)]
    exact .ipi _ (requests_of_id hid (by decide) (by decide))
  split
  case isTrue hid =>
    exact .other (requests_of_id hid (by decide) (by decide)) rfl
  split
  case isTrue hid =>
    rcases hid with hid | hid
    · exact .other (requests_of_id hid (by decide) (by decide)) rfl
    · exact .other (requests_of_id hid (by decide) (by decide)) rfl
  split
  case isTrue hid =>
    rw [wp_bind]
    exact wp_sbiShutdown s
  refine .other (requests_eq_none hzero fun htime => ?_) (Local.refl s)
  rw [htime] at hlegacy
  exact absurd hlegacy (by decide)

theorem sendIpiLoop_spec {mask base : Word} (bits : List Nat)
    (hnames : ∀ bit ∈ bits, mask &&& (1#32 <<< bit) ≠ 0 →
      (base + BitVec.ofNat 32 bit).toNat < s.clint.nrHarts) :
    Wp (sendIpiLoop mask base bits)
      (fun _ t => ∃ msip, t = { s with clint := { s.clint with msip := msip } }) Never s := by
  induction bits generalizing s with
  | nil => exact ⟨s.clint.msip, rfl⟩
  | cons bit bits ih =>
      have hrest := fun b hb => hnames b (List.mem_cons_of_mem _ hb)
      unfold sendIpiLoop
      by_cases hbit : mask &&& (1#32 <<< bit) ≠ 0
      · rw [if_pos hbit, wp_bind,
          wp_of_ok (sbiSendIpi_apply hp hm (hnames bit (List.mem_cons_self ..) hbit))]
        refine wp_mono (ih ⟨hp.pmrOps, hp.clintBase, hp.hartId⟩ hm hrest) ?_ fun _ _ h => h
        rintro _ t ⟨msip, rfl⟩
        exact ⟨msip, rfl⟩
      · rw [if_neg hbit]
        exact ih hp hm hrest

omit hp hm in
theorem baseResult_apply (frame : TrapFrame) (s : Vm) (functionId : Word) :
    ∃ answer, baseResult frame functionId s = .ok answer s ∧
      (¬functionId ≤ SBI_BASE_GET_MIMPID → answer = (SBI_ERR_NOT_SUPPORTED, 0)) := by
  have hvendor : readCsr CSR_MVENDORID s = .ok (s.hart.csrBlob CSR_MVENDORID) s :=
    readCsr_readOnlyBlob rfl s
  have harch : readCsr CSR_MARCHID s = .ok (s.hart.csrBlob CSR_MARCHID) s :=
    readCsr_readOnlyBlob rfl s
  have himp : readCsr CSR_MIMPID s = .ok (s.hart.csrBlob CSR_MIMPID) s :=
    readCsr_readOnlyBlob rfl s
  have hknown : ∀ {id : Word} {answer : Word × Word}, functionId = id → id ≤ SBI_BASE_GET_MIMPID →
      ¬functionId ≤ SBI_BASE_GET_MIMPID → answer = (SBI_ERR_NOT_SUPPORTED, 0) := by
    intro id answer hid hle hnot
    exact absurd (hid ▸ hle) hnot
  unfold baseResult
  split
  case isTrue hid => exact ⟨_, rfl, hknown hid (by decide)⟩
  split
  case isTrue hid => exact ⟨_, rfl, hknown hid (by decide)⟩
  split
  case isTrue hid => exact ⟨_, rfl, hknown hid (by decide)⟩
  split
  case isTrue hid => exact ⟨_, rfl, hknown hid (by decide)⟩
  split
  case isTrue hid => exact ⟨_, bind_apply_ok hvendor, hknown hid (by decide)⟩
  split
  case isTrue hid => exact ⟨_, bind_apply_ok harch, hknown hid (by decide)⟩
  split
  case isTrue hid => exact ⟨_, bind_apply_ok himp, hknown hid (by decide)⟩
  exact ⟨_, rfl, fun _ => rfl⟩

theorem modernResult_spec (hnames : NamesHarts frame s)
    (hmodern : ¬frame REG_A7 ≤ SBI_EXT_LEGACY_SHUTDOWN) :
    Wp (modernResult frame (frame REG_A7) (frame REG_A6))
      (fun answer t => Effect frame s t ∧
        (¬Supported frame → answer = (SBI_ERR_NOT_SUPPORTED, 0) ∧ t = s)) Never s := by
  have hzero : frame REG_A7 ≠ SBI_EXT_LEGACY_SET_TIMER := by
    intro h
    rw [h] at hmodern
    exact hmodern (by decide)
  -- the calls that are refused leave the machine as it is
  have hrefused : requests frame = none → Effect frame s s ∧
      (¬Supported frame → (SBI_ERR_NOT_SUPPORTED, (0 : Word)) = (SBI_ERR_NOT_SUPPORTED, 0) ∧ s = s) :=
    fun hrequest => ⟨.other hrequest (Local.refl s), fun _ => ⟨rfl, rfl⟩⟩
  unfold modernResult
  split
  case isTrue hid =>
    obtain ⟨answer, hanswer, hunknown⟩ := baseResult_apply frame s (frame REG_A6)
    rw [wp_of_ok hanswer]
    refine ⟨.other (requests_of_id hid (by decide) (by decide)) (Local.refl s), fun hnot => ?_⟩
    exact ⟨hunknown fun hle => hnot (.inr (.inl ⟨hid, hle⟩)), rfl⟩
  split
  case isTrue hid =>
    split
    case isTrue hfunction =>
      rw [wp_bind, wp_of_ok (sbiSetTimer_apply hp hm _)]
      refine ⟨.timer (requests_eq_some (.inr ⟨hid, hfunction⟩)), fun hnot => ?_⟩
      exact absurd (.inr (.inr (.inl ⟨hid, hfunction⟩))) hnot
    case isFalse hfunction =>
      exact hrefused (requests_eq_none hzero fun _ => hfunction)
  case isFalse htime =>
  have hrequest : requests frame = none := requests_eq_none hzero fun h => absurd h htime
  split
  case isTrue hid =>
    split
    case isTrue hfunction =>
      rw [wp_bind]
      refine wp_mono (sendIpiLoop_spec hp hm (List.range 32) ?_) ?_ fun _ _ h => h
      · intro bit hbit hset
        exact hnames hid hfunction bit (List.mem_range.mp hbit) hset
      · rintro _ t ⟨msip, rfl⟩
        refine ⟨.ipi msip hrequest, fun hnot => ?_⟩
        exact absurd (.inr (.inr (.inr (.inl ⟨hid, hfunction⟩)))) hnot
    case isFalse hfunction => exact hrefused hrequest
  split
  case isTrue hid =>
    split
    case isTrue hfunction =>
      refine ⟨.other hrequest rfl, fun hnot => ?_⟩
      exact absurd (.inr (.inr (.inr (.inr (.inl ⟨hid, by rw [hfunction]; decide⟩))))) hnot
    split
    case isTrue hfunction =>
      refine ⟨.other hrequest rfl, fun hnot => ?_⟩
      refine absurd (.inr (.inr (.inr (.inr (.inl ⟨hid, ?_⟩))))) hnot
      rcases hfunction with hfunction | hfunction
      · rw [hfunction]
        decide
      · rw [hfunction]
        decide
    exact hrefused hrequest
  split
  case isTrue hid =>
    split
    case isTrue hfunction =>
      rw [wp_bind]
      exact wp_sbiShutdown s
    case isFalse hfunction => exact hrefused hrequest
  exact hrefused hrequest

end Calls

/-- What a call leaves in the frame and in the machine. -/
structure Served (frame : TrapFrame) (s : Vm) (frame' : TrapFrame) (t : Vm) : Prop where
  effect : Effect frame s t
  legacy : frame REG_A7 ≤ SBI_EXT_LEGACY_SHUTDOWN →
    ∃ ret, frame' = Function.update frame REG_A0 ret
  modern : ¬frame REG_A7 ≤ SBI_EXT_LEGACY_SHUTDOWN →
    ∃ error value, frame' = Function.update (Function.update frame REG_A0 error) REG_A1 value
  unsupported : ¬Supported frame → t = s ∧
    frame' = Function.update (Function.update frame REG_A0 SBI_ERR_NOT_SUPPORTED) REG_A1 0

theorem sbiDispatch_spec {s : Vm} (hp : Platform s)
    (hm : s.hart.privilegeLevel = PRIVILEGE_LEVEL_MACHINE) {frame : TrapFrame}
    (hnames : NamesHarts frame s) : Wp (sbiDispatch frame) (Served frame s) Never s := by
  unfold sbiDispatch
  split
  case isTrue hlegacy =>
    unfold sbiLegacyCall
    rw [wp_bind]
    refine wp_mono (legacyResult_spec hp hm hlegacy) ?_ fun _ _ h => h
    intro ret t heffect
    exact ⟨heffect, fun _ => ⟨ret, rfl⟩, fun h => absurd hlegacy h,
      fun h => absurd (.inl hlegacy) h⟩
  case isFalse hmodern =>
    unfold sbiModernCall
    rw [wp_bind]
    refine wp_mono (modernResult_spec hp hm hnames hmodern) ?_ fun _ _ h => h
    rintro ⟨error, value⟩ t ⟨heffect, hunsupported⟩
    refine ⟨heffect, fun h => absurd h hmodern, fun _ => ⟨error, value, rfl⟩, fun h => ?_⟩
    obtain ⟨hanswer, rfl⟩ := hunsupported h
    obtain ⟨rfl, rfl⟩ := Prod.mk.inj hanswer
    exact ⟨rfl, rfl⟩

/-! ## The trap handler -/

/-- The cause the firmware finds in `mcause`. -/
def machineCause (vm : Vm) : Word :=
  vm.hart.csrBlob CSR_ADDRESS_MCAUSE

/-- The machine after a timer interrupt was handed up. -/
def ticked (s : Vm) : Vm :=
  { s with
    hart := { s.hart with
      ienable := enableCleared s.hart.ienable MIE_MTIE
      ipending := pendingSet s.hart.ipending MIP_STIP } }

/-- The machine after a software interrupt was handed up. -/
def rung (s : Vm) : Vm :=
  { s with
    hart := { s.hart with ipending := pendingSet s.hart.ipending MIP_SSIP }
    clint := { s.clint with msip := Function.update s.clint.msip s.hart.hartId 0 } }

/-- Everything the firmware's trap handler can do. -/
inductive Handled (frame : TrapFrame) (s : Vm) : TrapFrame → Vm → Prop
  | timer (interrupt : machineCause s &&& 0x80000000 ≠ 0)
      (cause : machineCause s &&& 0xff = IRQ_MACHINE_TIMER) : Handled frame s frame (ticked s)
  | software (interrupt : machineCause s &&& 0x80000000 ≠ 0)
      (cause : machineCause s &&& 0xff = IRQ_MACHINE_SOFTWARE) : Handled frame s frame (rung s)
  | ecall {frame' : TrapFrame} {t : Vm} (cause : machineCause s = CAUSE_SUPERVISOR_ECALL)
      (served : Served frame s frame' t) :
      Handled frame s frame'
        { t with hart := t.hart.setCsrBlob CSR_ADDRESS_MEPC (s.hart.csrBlob CSR_ADDRESS_MEPC + 4) }

theorem Effect.csrBlob {frame : TrapFrame} {s t : Vm} (h : Effect frame s t) :
    t.hart.csrBlob = s.hart.csrBlob := by
  cases h with
  | timer | clearIpi | ipi => rfl
  | other _ stays =>
      rw [Local] at stays
      rw [stays]

theorem Effect.privilegeLevel {frame : TrapFrame} {s t : Vm} (h : Effect frame s t) :
    t.hart.privilegeLevel = s.hart.privilegeLevel := by
  cases h with
  | timer | clearIpi | ipi => rfl
  | other _ stays => exact stays.privilegeLevel

theorem Handled.privilegeLevel {frame frame' : TrapFrame} {s t : Vm}
    (h : Handled frame s frame' t) : t.hart.privilegeLevel = s.hart.privilegeLevel := by
  cases h with
  | timer | software => rfl
  | ecall _ served => exact served.effect.privilegeLevel

section Handler

variable {s : Vm} (hp : Platform s) (hm : s.hart.privilegeLevel = PRIVILEGE_LEVEL_MACHINE)
include hp hm

theorem acknowledge_apply :
    store32 (CLINT_BASE + CLINT_MSIP_OFFSET + 4 * BitVec.ofNat 32 s.hart.hartId) 0 s =
      .ok () { s with
        clint := { s.clint with msip := Function.update s.clint.msip s.hart.hartId 0 } } := by
  have hid := hp.hartId
  have hle : s.hart.hartId < 64 := Nat.lt_of_lt_of_le hid s.clint.nrHarts_le
  have haddress : CLINT_BASE + CLINT_MSIP_OFFSET + 4 * BitVec.ofNat 32 s.hart.hartId =
      CLINT_BASE + BitVec.ofNat 32 (4 * s.hart.hartId) := by
    apply BitVec.eq_of_toNat_eq
    simp [CLINT_BASE, CLINT_MSIP_OFFSET, BitVec.toNat_add, BitVec.toNat_mul]
  rw [haddress, store32_clint hp hm (by omega), clint_write_msip hp.clintBase hid]
  rfl

theorem fwTrapHandler_spec {frame : TrapFrame}
    (hnames : machineCause s = CAUSE_SUPERVISOR_ECALL → NamesHarts frame s) :
    Wp (fwTrapHandler frame) (Handled frame s) Never s := by
  unfold fwTrapHandler
  rw [wp_bind, wp_of_ok (readCsr_mcause s)]
  split
  case isTrue hinterrupt =>
    unfold fwHandleInterrupt
    split
    case isTrue hcause =>
      rw [wp_bind, wp_bind, wp_of_ok (clearCsr_mie _ s), wp_of_ok (setCsr_mip _ _)]
      exact .timer hinterrupt hcause
    split
    case isTrue hcause =>
      rw [wp_bind, wp_bind, wp_of_ok (currentHartid_apply s), wp_bind,
        wp_of_ok (acknowledge_apply hp hm), wp_of_ok (setCsr_mip _ _)]
      exact .software hinterrupt hcause
    rw [wp_bind]
    exact wp_bind_any (fun mepc => wp_fwFatal _ _ mepc _) s
  split
  case isTrue hcause =>
    rw [wp_bind]
    refine wp_mono (sbiDispatch_spec hp hm (hnames hcause)) ?_ fun _ _ h => h
    intro frame' t hserved
    rw [wp_bind, wp_of_ok (readCsr_mepc t), wp_bind, wp_of_ok (writeCsr_mepc _ t),
      hserved.effect.csrBlob]
    exact .ecall hcause hserved
  exact wp_bind_any (fun mepc => wp_bind_any fun mtval => wp_fwFatal _ _ mepc mtval) s

end Handler

/-! ## Initialisation -/

theorem writeCsr_apply {address : CsrAddress} {csr : CsrEntry} {write : Word → Vm → Vm}
    (h : csrEntryAt address = some csr) (hwrite : csr.write = some write) (value : Word) (s : Vm) :
    writeCsr address value s = .ok () (write (value &&& csr.wpriMask) s) := by
  unfold writeCsr csrWrite
  rw [bind_apply_ok (csrAt_apply h s), hwrite]
  rfl

/-- `sbi_init` enables the software interrupt alone and drops every software-pending bit. -/
theorem sbiInit_apply (fwTrapVector : Word) (s : Vm) :
    sbiInit fwTrapVector s = .ok () { s with
      hart := { s.hart.setCsrBlob CSR_ADDRESS_MTVEC (fwTrapVector &&& 0xfffffffd) with
        ienable := MIE_MSIE &&& 0xaaa
        ipending := pendingWrite s.hart.ipending 0 } } := by
  have hmtvec : csrEntryAt CSR_ADDRESS_MTVEC = some mtvecCsrEntry := rfl
  have hmie : csrEntryAt CSR_ADDRESS_MIE = some mieCsrEntry := rfl
  have hmip : csrEntryAt CSR_ADDRESS_MIP = some mipCsrEntry := rfl
  unfold sbiInit
  rw [bind_apply_ok (writeCsr_apply hmtvec rfl _ s), bind_apply_ok (writeCsr_apply hmie rfl _ _),
    writeCsr_apply hmip rfl]
  rfl

end Zelda.Proofs.SbiCalls
