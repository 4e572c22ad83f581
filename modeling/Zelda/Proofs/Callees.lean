import Zelda.Lib.X86Rules
import Zelda.Proofs.Frames
import Zelda.Vmm.Translation
/-!
# What the vmm can do to the hart

Every change a vmm function or a translated block makes to the hart is one of
a few kinds.  A predicate closed under these kinds holds after any of them,
whichever way they end.
-/

namespace Zelda.Proofs.Callees

open Zelda.Vmm
open Zelda.Lib.Effect
open Zelda.Lib.X86
open Zelda.Proofs.Frames

/-! ## The changes -/

/-- What `csr_satp_write` does to the hart. -/
def writeSatp (h : Hart) (value : Word) : Hart :=
  let h := h.setCsrBlob CSR_ADDRESS_SATP value
  { h with itlb := h.itlb.invalidate, dtlb := h.dtlb.invalidate }.flushTranslationCache

/-- A predicate that survives what unprivileged instructions do to the hart. -/
structure Closed (I : Hart → Prop) : Prop where
  setReg : ∀ h index value, I h → I (h.setReg index value)
  setPc : ∀ (h : Hart) pc, I h → I { h with pc := pc }
  install : ∀ (vm : Vm) side va entry, PageWalk.walkLeaf vm va = some (.ok entry) → I vm.hart →
    I (vm.hart.setTlb side ((vm.hart.tlb side).install
      (PageWalk.leafSlot (vm.hart.tlb side) va entry.pageMask) entry))

/-- A predicate that survives the fill of a TLB slot. -/
def FillClosed (I : Hart → Prop) : Prop :=
  ∀ (vm : Vm) side va entry, PageWalk.walkLeaf vm va = some (.ok entry) → I vm.hart →
    I (vm.hart.setTlb side ((vm.hart.tlb side).install
      (PageWalk.leafSlot (vm.hart.tlb side) va entry.pageMask) entry))

/-- A predicate that survives writes of the integer registers. -/
def SetRegClosed (I : Hart → Prop) : Prop :=
  ∀ h index value, I h → I (h.setReg index value)

/-- The pending bits that devices drive. -/
def deviceBits : Word := 0xa88

/-- A predicate that survives what devices do to the pending bits. -/
def RefreshClosed (I : Hart → Prop) : Prop :=
  ∀ (h : Hart) ipending, ipending &&& ~~~deviceBits = h.ipending &&& ~~~deviceBits → I h →
    I { h with ipending := ipending }

/--
A predicate that survives the fences, returns, CSR accesses and interrupts
too, each with what has been checked where it happens.
-/
structure PrivilegedClosed (I : Hart → Prop) : Prop where
  refresh : ∀ (h : Hart) ipending,
    ipending &&& ~~~deviceBits = h.ipending &&& ~~~deviceBits → I h →
    I { h with ipending := ipending }
  setTsc : ∀ (h : Hart) tsc, I h → I { h with tsc := tsc }
  csrWrite : ∀ {address : CsrAddress} {csr : CsrEntry} {f : Word → Vm → Vm} (vm : Vm) (value : Word),
    csrEntryAt address = some csr → csr.write = some f → value &&& csr.wpriMask = value →
    I vm.hart → I (f value vm).hart
  returnFromMmode : ∀ h : Hart, h.privilegeLevel = PRIVILEGE_LEVEL_MACHINE →
    h.status.mpp = PRIVILEGE_LEVEL_USER ∨ h.status.mpp = PRIVILEGE_LEVEL_SUPERVISOR ∨
      h.status.mpp = PRIVILEGE_LEVEL_MACHINE → I h → I h.returnFromMmode
  returnFromSmode : ∀ h : Hart, h.privilegeLevel = PRIVILEGE_LEVEL_SUPERVISOR → I h →
    I h.returnFromSmode
  flush : ∀ h, I h → I h.flushTranslationCache
  sfenceVma : ∀ h, I h → I h.sfenceVma

/-- A predicate that survives the returns and the fences. -/
structure ReturnClosed (I : Hart → Prop) : Prop where
  returnFromMmode : ∀ h : Hart, h.privilegeLevel = PRIVILEGE_LEVEL_MACHINE →
    h.status.mpp = PRIVILEGE_LEVEL_USER ∨ h.status.mpp = PRIVILEGE_LEVEL_SUPERVISOR ∨
      h.status.mpp = PRIVILEGE_LEVEL_MACHINE → I h → I h.returnFromMmode
  returnFromSmode : ∀ h : Hart, h.privilegeLevel = PRIVILEGE_LEVEL_SUPERVISOR → I h →
    I h.returnFromSmode
  flush : ∀ h, I h → I h.flushTranslationCache
  sfenceVma : ∀ h, I h → I h.sfenceVma

/-- The part of `PrivilegedClosed` that does not speak of the CSR file. -/
structure EventClosed (I : Hart → Prop) : Prop where
  refresh : ∀ (h : Hart) ipending,
    ipending &&& ~~~deviceBits = h.ipending &&& ~~~deviceBits → I h →
    I { h with ipending := ipending }
  returnFromMmode : ∀ h : Hart, h.privilegeLevel = PRIVILEGE_LEVEL_MACHINE →
    h.status.mpp = PRIVILEGE_LEVEL_USER ∨ h.status.mpp = PRIVILEGE_LEVEL_SUPERVISOR ∨
      h.status.mpp = PRIVILEGE_LEVEL_MACHINE → I h → I h.returnFromMmode
  returnFromSmode : ∀ h : Hart, h.privilegeLevel = PRIVILEGE_LEVEL_SUPERVISOR → I h →
    I h.returnFromSmode
  flush : ∀ h, I h → I h.flushTranslationCache
  sfenceVma : ∀ h, I h → I h.sfenceVma

theorem PrivilegedClosed.eventClosed {I : Hart → Prop} (hP : PrivilegedClosed I) :
    EventClosed I where
  refresh := hP.refresh
  returnFromMmode := hP.returnFromMmode
  returnFromSmode := hP.returnFromSmode
  flush := hP.flush
  sfenceVma := hP.sfenceVma

theorem EventClosed.returnClosed {I : Hart → Prop} (hV : EventClosed I) : ReturnClosed I where
  returnFromMmode := hV.returnFromMmode
  returnFromSmode := hV.returnFromSmode
  flush := hV.flush
  sfenceVma := hV.sfenceVma

/--
Every way out of vmm code from `I` is in `E`: the process ends, or a trap is
taken.  `traps` says which level a hart may trap to with which cause.
-/
structure Leaves (I : Hart → Prop) (traps : Hart → BitVec 2 → Word → Prop)
    (E : Abort → Vm → Prop) : Prop where
  stop : ∀ (e : Abort) (s : Vm), e ≠ .trap → I s.hart → E e s
  trap : ∀ (s : Vm) level cause tval, traps s.hart level cause → I s.hart →
    E .trap { s with hart := s.hart.takeTrap level cause tval }

/-- A predicate of the hart, read on the machine. -/
abbrev OnHart (I : Hart → Prop) (vm : Vm) : Prop :=
  I vm.hart

section Ends

variable {I : Hart → Prop} {traps : Hart → BitVec 2 → Word → Prop} {E : Abort → Vm → Prop}

/-- A computation that leaves the hart alone and does not trap. -/
theorem ends_of_frame (hE : Leaves I traps E) {α : Type} {m : VmM α} {Q : Vm → α → Vm → Prop}
    (h : ∀ s, Wp m (Q s) (NoTrap s) s) (hQ : ∀ s a t, Q s a t → t.hart = s.hart) :
    Ends (OnHart I) E m := by
  intro s hs
  refine wp_mono (h s) ?_ ?_
  · intro a t ht
    rw [OnHart, hQ s a t ht]
    exact hs
  · rintro e t ⟨hne, rfl⟩
    exact hE.stop e t hne hs

theorem ends_pmrRead (hE : Leaves I traps E) (pmr : PmRegion) (addr : Word) (size : AccessSize) :
    Ends (OnHart I) E (pmr.pmrRead addr size) :=
  ends_of_frame hE (pmrRead_frame pmr addr size) fun _ _ _ h => by rw [h]

theorem ends_pmrWrite (hE : Leaves I traps E) (pmr : PmRegion) (addr : Word) (size : AccessSize)
    (value : DWord) : Ends (OnHart I) E (pmr.pmrWrite addr size value) :=
  ends_of_frame hE (pmrWrite_frame pmr addr size value) fun _ _ _ h => by rw [h]

theorem ends_directRead (hE : Leaves I traps E) (addr : Word) (size : AccessSize) :
    Ends (OnHart I) E (directRead addr size) :=
  ends_of_frame hE (directRead_frame addr size) fun _ _ _ h => by rw [h]

theorem ends_directWrite (hE : Leaves I traps E) (addr : Word) (size : AccessSize)
    (value : DWord) : Ends (OnHart I) E (directWrite addr size value) :=
  ends_of_frame hE (directWrite_frame addr size value) fun _ _ _ h => by rw [h]

theorem ends_modifyHart {f : Hart → Hart} (hf : ∀ h, I h → I (f h)) :
    Ends (OnHart I) E (modifyHart f) :=
  ends_modify fun s hs => hf s.hart hs

theorem ends_exit (hE : Leaves I traps E) {α : Type} :
    Ends (OnHart I) E (throw .exit : VmM α) :=
  ends_throw fun s hs => hE.stop .exit s (by decide) hs

theorem ends_hostFault (hE : Leaves I traps E) {α : Type} :
    Ends (OnHart I) E (throw .hostFault : VmM α) :=
  ends_throw fun s hs => hE.stop .hostFault s (by decide) hs

theorem ends_assert (hE : Leaves I traps E) (condition : Bool) :
    Ends (OnHart I) E (assert condition) :=
  ends_ite (ends_pure _) (ends_exit hE)

/-! ## Traps -/

theorem ends_raiseTrapRaw (hE : Leaves I traps E) {α : Type} (level : BitVec 2) {cause : Word}
    (htrap : ∀ h, I h → traps h level cause) (tval : Word) :
    Ends (OnHart I) E (raiseTrapRaw level cause tval : VmM α) := by
  intro s hs
  by_cases hlevel : level = PRIVILEGE_LEVEL_SUPERVISOR ∨ level = PRIVILEGE_LEVEL_MACHINE
  · rw [wp_of_error (raiseTrapRaw_apply cause tval s hlevel)]
    exact hE.trap s level cause tval (htrap s.hart hs) hs
  · unfold raiseTrapRaw
    have hcheck : (level == PRIVILEGE_LEVEL_MACHINE || level == PRIVILEGE_LEVEL_SUPERVISOR) =
        false := by
      rw [not_or] at hlevel
      simp [hlevel.1, hlevel.2]
    rw [hcheck, wp_bind]
    exact hE.stop .exit s (by decide) hs

/-- A hart in `I` may take the exception at the level its delegation register asks for. -/
def MayRaise (I : Hart → Prop) (traps : Hart → BitVec 2 → Word → Prop) (cause : Nat) : Prop :=
  ∀ h, I h → traps h (h.exceptionTargetPrivilegeLevel cause) (BitVec.ofNat 32 cause)

theorem ends_raiseExceptionWithTvalue (hE : Leaves I traps E) {α : Type} {cause : Nat}
    (hlt : cause < 16) (hcause : MayRaise I traps cause) (tval : Word) :
    Ends (OnHart I) E (raiseExceptionWithTvalue cause tval : VmM α) := by
  intro s hs
  rw [wp_of_error (raiseExceptionWithTvalue_apply tval s hlt)]
  exact hE.trap s _ _ tval (hcause s.hart hs) hs

theorem wp_raiseException (hE : Leaves I traps E) {α : Type} {Q : α → Vm → Prop} {cause : Nat}
    (hlt : cause < 16) (hcause : MayRaise I traps cause) {s : Vm} (hs : I s.hart) :
    Wp (raiseException cause) Q E s := by
  rw [raiseException, wp_of_error (raiseExceptionWithTvalue_apply 0 s hlt)]
  exact hE.trap s _ _ 0 (hcause s.hart hs) hs

/-- The exceptions of the vmm other than the one of the prefetch. -/
def BlockCauses (I : Hart → Prop) (traps : Hart → BitVec 2 → Word → Prop) : Prop :=
  ∀ cause, cause < 16 → cause ≠ EXCEPTION_INSTRUCTION_PAGE_FAULT → MayRaise I traps cause

/-- The interrupts the delivery loop takes. -/
def InterruptCauses (I : Hart → Prop) (traps : Hart → BitVec 2 → Word → Prop) : Prop :=
  ∀ h vector, vector ∈ deliveryOrder → h.isInterruptDeliverable vector = true → I h →
    traps h (h.interruptTargetPrivilegeLevel vector) (0x80000000#32 ||| BitVec.ofNat 32 vector)

end Ends

/-! ## Memory accesses -/

section MemoryAccess

variable {I : Hart → Prop} {traps : Hart → BitVec 2 → Word → Prop} {E : Abort → Vm → Prop}
variable (hF : FillClosed I) (hE : Leaves I traps E)
include hF hE

theorem ends_translateAddress (side : TlbSide) {fault : Nat} (hfault : fault < 16)
    (hcause : MayRaise I traps fault) (va : Word) :
    Ends (OnHart I) E (translateAddress side fault va) := by
  intro s hs
  rw [Wp, translateAddress_apply side hfault]
  cases (s.hart.tlb side).vaToTlbEntry va with
  | some entry => exact hs
  | none =>
      rcases hleaf : PageWalk.walkLeaf s va with _ | (rc | entry)
      · exact hE.stop .exit s (by decide) hs
      · exact hE.trap s _ _ va (hcause s.hart hs) hs
      · exact hF _ _ _ _ hleaf hs

theorem ends_mmuInstructionRead32
    (hcause : MayRaise I traps EXCEPTION_INSTRUCTION_PAGE_FAULT) (va : Word) :
    Ends (OnHart I) E (mmuInstructionRead32 va) := by
  unfold mmuInstructionRead32
  refine ends_bind ends_get fun vm => ends_ite ?_ ?_
  · refine ends_bind (ends_translateAddress hF hE .itlb (by decide) hcause va) fun entry => ?_
    exact ends_bind (ends_pmrRead hE _ _ _) fun _ => ends_pure _
  · exact ends_bind (ends_directRead hE va _) fun _ => ends_pure _

variable (hblock : BlockCauses I traps)
include hblock

theorem ends_vmread (va : Word) (size : AccessSize) : Ends (OnHart I) E (vmread va size) := by
  unfold vmread
  refine ends_bind ends_get fun vm => ends_ite ?_ (ends_directRead hE va size)
  exact ends_bind
    (ends_translateAddress hF hE .dtlb (by decide) (hblock _ (by decide) (by decide)) va)
    fun entry => ends_pmrRead hE _ _ _

theorem ends_vmwrite (va : Word) (size : AccessSize) (value : DWord) :
    Ends (OnHart I) E (vmwrite va size value) := by
  unfold vmwrite
  refine ends_bind ends_get fun vm => ends_ite ?_ (ends_directWrite hE va size value)
  exact ends_bind
    (ends_translateAddress hF hE .dtlb (by decide) (hblock _ (by decide) (by decide)) va)
    fun entry => ends_pmrWrite hE _ _ _ _

theorem ends_mmuRead32Aligned (location : Word) :
    Ends (OnHart I) E (mmuRead32Aligned location) := by
  unfold mmuRead32Aligned
  refine ends_ite (ends_raiseExceptionWithTvalue hE (by decide) (hblock _ (by decide) (by decide)) _) ?_
  exact ends_bind (ends_vmread hF hE hblock _ _) fun _ => ends_pure _

theorem ends_mmuWrite32Aligned (location value : Word) :
    Ends (OnHart I) E (mmuWrite32Aligned location value) := by
  unfold mmuWrite32Aligned
  refine ends_ite (ends_raiseExceptionWithTvalue hE (by decide) (hblock _ (by decide) (by decide)) _) ?_
  exact ends_vmwrite hF hE hblock _ _ _

end MemoryAccess

/-! ## Atomics -/

section Atomics

variable {I : Hart → Prop} {traps : Hart → BitVec 2 → Word → Prop} {E : Abort → Vm → Prop}
variable (hF : FillClosed I) (hS : SetRegClosed I) (hE : Leaves I traps E)
variable (hblock : BlockCauses I traps)
include hF hS hE hblock

omit hF hE hblock in
theorem ends_regWrite (index : RegIndex) (value : Word) :
    Ends (OnHart I) E (regWrite index value) :=
  ends_modifyHart fun h => hS h index value

theorem ends_amoSlowpath (combine : Word → Word → Word) (rs1 rs2 rd : RegIndex) :
    Ends (OnHart I) E (amoSlowpath combine rs1 rs2 rd) := by
  unfold amoSlowpath
  refine ends_bind ends_get fun vm => ?_
  refine ends_bind (ends_mmuRead32Aligned hF hE hblock _) fun loaded => ?_
  refine ends_bind (ends_regWrite hS _ _) fun _ => ends_bind ends_get fun _ => ?_
  exact ends_mmuWrite32Aligned hF hE hblock _ _

theorem ends_lrSlowpath (rs1 rs2 rd : RegIndex) :
    Ends (OnHart I) E (lrSlowpath rs1 rs2 rd) := by
  unfold lrSlowpath
  refine ends_bind ends_get fun vm => ?_
  refine ends_bind (ends_mmuRead32Aligned hF hE hblock _) fun loaded => ?_
  exact ends_bind (ends_regWrite hS _ _) fun _ => ends_modify fun _ hs => hs

theorem ends_scSlowpath (rs1 rs2 rd : RegIndex) :
    Ends (OnHart I) E (scSlowpath rs1 rs2 rd) := by
  unfold scSlowpath
  refine ends_bind ends_get fun vm => ?_
  simp only
  cases vm.matchingReservation (vm.hart.registers rs1) with
  | none => exact ends_regWrite hS _ _
  | some idx =>
      refine ends_bind (ends_regWrite hS _ _) fun _ => ?_
      exact ends_bind (ends_mmuWrite32Aligned hF hE hblock _ _) fun _ =>
        ends_modify fun _ hs => hs

theorem ends_amoInstructionSlowpath (rs1 rs2 rd : RegIndex) (funct5 : Word) :
    Ends (OnHart I) E (amoInstructionSlowpath rs1 rs2 rd funct5) := by
  unfold amoInstructionSlowpath
  split
  · exact ends_amoSlowpath hF hS hE hblock _ _ _ _
  · exact ends_amoSlowpath hF hS hE hblock _ _ _ _
  · exact ends_lrSlowpath hF hS hE hblock _ _ _
  · exact ends_scSlowpath hF hS hE hblock _ _ _
  · exact ends_amoSlowpath hF hS hE hblock _ _ _ _
  · exact ends_amoSlowpath hF hS hE hblock _ _ _ _
  · exact ends_amoSlowpath hF hS hE hblock _ _ _ _
  · exact ends_exit hE

end Atomics

/-! ## Interrupts -/

theorem getLsbD_assignBit (blob : Word) {n : Nat} (flag : Bool) {i : Nat} (hi : i < 32) :
    (assignBit blob n flag).getLsbD i = if i = n then flag else blob.getLsbD i := by
  have hmask : (1#32 <<< n).getLsbD i = (decide (n < 32) && decide (n = i)) :=
    BitVec.getLsbD_twoPow n i
  have hflag : ((BitVec.ofBool flag).setWidth 32 <<< n).getLsbD i = (decide (i = n) && flag) := by
    rw [BitVec.getLsbD_shiftLeft]
    by_cases hn : i = n
    · subst hn
      simp [hi]
    · by_cases hlt : i < n
      · simp [hn, hlt]
      · have hsub : i - n ≠ 0 := by omega
        simp [hn, hsub]
  rw [assignBit, BitVec.getLsbD_or, BitVec.getLsbD_and, BitVec.getLsbD_not, hmask, hflag]
  by_cases hn : i = n
  · simp [hn]
  · simp [hn, Ne.symm hn, hi]

/-- A device leaves the bits of software alone. -/
theorem assignBit_software {n : Nat} (hn : deviceBits.getLsbD n = true) (blob : Word) (flag : Bool) :
    assignBit blob n flag &&& ~~~deviceBits = blob &&& ~~~deviceBits := by
  apply BitVec.eq_of_getLsbD_eq
  intro i hi
  by_cases hdevice : deviceBits.getLsbD i = true
  · simp [hdevice]
  · have hne : i ≠ n := fun h => hdevice (h ▸ hn)
    simp only [BitVec.getLsbD_and]
    rw [getLsbD_assignBit _ _ hi, if_neg hne]

section Privileged

variable {I : Hart → Prop} {traps : Hart → BitVec 2 → Word → Prop} {E : Abort → Vm → Prop}
variable (hP : RefreshClosed I) (hE : Leaves I traps E)

section
include hE

theorem ends_uartPollInput : Ends (OnHart I) E uartPollInput := by
  unfold uartPollInput
  refine ends_get_bind fun s hs => ?_
  simp only
  split
  · exact hs
  · cases s.hostInput with
    | nil => exact hs
    | cons waiting later =>
        simp only
        cases s.uart.receive (waiting.take 64) with
        | some uart => exact hs
        | none => exact hE.stop .exit s (by decide) hs

theorem ends_deliverFirst (hinterrupt : InterruptCauses I traps) {vectors : List Nat}
    (hvectors : ∀ vector ∈ vectors, vector ∈ deliveryOrder) :
    Ends (OnHart I) E (deliverFirst vectors) := by
  induction vectors with
  | nil => exact ends_pure _
  | cons vector rest ih =>
      unfold deliverFirst
      refine ends_get_bind fun s hs => ?_
      by_cases hdeliverable : s.hart.isInterruptDeliverable vector = true
      · rw [if_pos hdeliverable]
        have hlevel : s.hart.interruptTargetPrivilegeLevel vector = PRIVILEGE_LEVEL_SUPERVISOR ∨
            s.hart.interruptTargetPrivilegeLevel vector = PRIVILEGE_LEVEL_MACHINE := by
          unfold Hart.interruptTargetPrivilegeLevel
          split
          · exact .inl rfl
          · exact .inr rfl
        unfold deliverInterrupt
        rw [wp_bind, wp_get, wp_of_error (raiseTrapRaw_apply _ _ s hlevel)]
        have hmem := hvectors vector List.mem_cons_self
        exact hE.trap s _ _ 0 (hinterrupt s.hart vector hmem hdeliverable hs) hs
      · rw [if_neg hdeliverable]
        exact ih (fun v hv => hvectors v (List.mem_cons_of_mem _ hv)) s hs

end

include hP hE

omit hE in
theorem ends_clintRefreshPending : Ends (OnHart I) E clintRefreshPending :=
  ends_modify fun s hs => hP s.hart _
    ((assignBit_software (by decide) _ _).trans (assignBit_software (by decide) _ _)) hs

omit hE in
theorem ends_plicRefreshPending : Ends (OnHart I) E plicRefreshPending :=
  ends_modify fun s hs => hP s.hart _
    ((assignBit_software (by decide) _ _).trans (assignBit_software (by decide) _ _)) hs

theorem ends_refreshDeviceInterrupts : Ends (OnHart I) E refreshDeviceInterrupts := by
  have hrest : Ends (OnHart I) E (do
      uartRefreshInterrupt
      clintRefreshPending
      plicRefreshPending) :=
    ends_bind (ends_modify fun _ hs => hs) fun _ =>
      ends_bind (ends_clintRefreshPending hP) fun _ => ends_plicRefreshPending hP
  unfold refreshDeviceInterrupts
  refine ends_get_bind fun s hs => ?_
  simp only
  split
  · exact ends_bind (ends_uartPollInput hE) (fun _ => hrest) { s with pollCountdown := _ } hs
  · exact hrest { s with pollCountdown := _ } hs

theorem ends_pumpDevicesAndDeliverInterrupts (hinterrupt : InterruptCauses I traps) :
    Ends (OnHart I) E pumpDevicesAndDeliverInterrupts := by
  unfold pumpDevicesAndDeliverInterrupts
  refine ends_bind (ends_modify fun _ hs => hs) fun _ => ?_
  exact ends_bind (ends_refreshDeviceInterrupts hP hE) fun _ =>
    ends_deliverFirst hE hinterrupt fun _ h => h

theorem ends_hartIdleLoop (n : Nat) : Ends (OnHart I) E (hartIdleLoop n) := by
  induction n with
  | zero => exact ends_pure _
  | succ n ih =>
      unfold hartIdleLoop
      refine ends_bind (ends_uartPollInput hE) fun _ => ?_
      refine ends_bind (ends_refreshDeviceInterrupts hP hE) fun _ => ?_
      refine ends_get_bind fun s hs => ?_
      split
      · exact hs
      · exact ih { s with clint := _ } hs

/-! ## Privileged instructions -/

omit hP
variable (hR : ReturnClosed I) (hblock : BlockCauses I traps)
include hR hblock

theorem ends_mretCallback : Ends (OnHart I) E mretCallback := by
  unfold mretCallback assertHartRunningInMmode
  intro s hs
  rw [wp_bind, wp_bind, wp_get]
  by_cases hlevel : s.hart.privilegeLevel = PRIVILEGE_LEVEL_MACHINE
  · rw [if_neg (not_not.mpr hlevel), wp_pure, wp_bind, wp_get]
    unfold assert
    split
    · rename_i hmpp
      rw [Bool.or_eq_true, Bool.or_eq_true, beq_iff_eq, beq_iff_eq, beq_iff_eq, or_assoc] at hmpp
      exact hR.returnFromMmode s.hart hlevel hmpp hs
    · exact hE.stop .exit s (by decide) hs
  · rw [if_pos hlevel]
    exact wp_raiseException hE (by decide) (hblock _ (by decide) (by decide)) hs

theorem ends_sretCallback : Ends (OnHart I) E sretCallback := by
  unfold sretCallback assertHartRunningInSmode
  intro s hs
  rw [wp_bind, wp_bind, wp_get]
  by_cases hlevel : s.hart.privilegeLevel = PRIVILEGE_LEVEL_SUPERVISOR
  · rw [if_neg (not_not.mpr hlevel), wp_pure]
    exact hR.returnFromSmode s.hart hlevel hs
  · rw [if_pos hlevel]
    exact wp_raiseException hE (by decide) (hblock _ (by decide) (by decide)) hs

omit hR in
theorem ends_ecallCallback : Ends (OnHart I) E ecallCallback := by
  have htrap : ∀ cause, cause < 16 → cause ≠ EXCEPTION_INSTRUCTION_PAGE_FAULT →
      Ends (OnHart I) E (raiseException cause : VmM Unit) := fun cause hlt hne =>
    ends_raiseExceptionWithTvalue hE hlt (hblock cause hlt hne) 0
  unfold ecallCallback
  refine ends_bind ends_get fun _ => ends_ite (htrap _ (by decide) (by decide)) ?_
  refine ends_ite (htrap _ (by decide) (by decide)) ?_
  exact ends_ite (htrap _ (by decide) (by decide)) (ends_exit hE)

end Privileged

/-! ## The CSR file -/

/-- The kinds of registers in the CSR file. -/
inductive CsrKind : CsrAddress → CsrEntry → Prop
  | blob {address : CsrAddress} (mask : Word) (ne_satp : address ≠ CSR_ADDRESS_SATP) :
      CsrKind address (blobCsrEntry address mask)
  /-- Writes are ignored and a read at most latches the clock. -/
  | readOnly {address : CsrAddress} {csr : CsrEntry}
      (write : ∀ f, csr.write = some f → f = ignoreWrite)
      (read : ∀ f, csr.read = some f → ∀ vm : Vm, (f vm).2 = vm ∨
        (f vm).2 = { vm with hart := { vm.hart with tsc := vm.clint.mtime } }) :
      CsrKind address csr
  | mie : CsrKind CSR_ADDRESS_MIE mieCsrEntry
  | mip : CsrKind CSR_ADDRESS_MIP mipCsrEntry
  | mideleg : CsrKind CSR_ADDRESS_MIDELEG midelegCsrEntry
  | mstatus : CsrKind CSR_ADDRESS_MSTATUS mstatusCsrEntry
  | satp : CsrKind CSR_ADDRESS_SATP satpCsrEntry
  | sie : CsrKind CSR_ADDRESS_SIE sieCsrEntry
  | sip : CsrKind CSR_ADDRESS_SIP sipCsrEntry
  | sstatus : CsrKind CSR_ADDRESS_SSTATUS sstatusCsrEntry

theorem CsrKind.fixed {address : CsrAddress} {mask : Word} {write : Option (Word → Vm → Vm)}
    {read : Vm → Word × Vm} (hwrite : ∀ f, write = some f → f = ignoreWrite)
    (hread : ∀ vm, (read vm).2 = vm) : CsrKind address ⟨mask, write, some read⟩ :=
  .readOnly hwrite fun f hf vm => by
    obtain rfl := Option.some.inj hf
    exact .inl (hread vm)

theorem csrRegistery_kinds : ∀ entry ∈ csrRegistery, CsrKind entry.1 entry.2 := by
  have hnone : ∀ f : Word → Vm → Vm, none = some f → f = ignoreWrite := fun _ h => nomatch h
  have hignore : ∀ f : Word → Vm → Vm, some ignoreWrite = some f → f = ignoreWrite :=
    fun _ h => (Option.some.inj h).symm
  have htime : CsrKind CSR_ADDRESS_TIME timeCsrEntry :=
    .readOnly hignore fun f hf vm => by
      obtain rfl := Option.some.inj hf
      exact .inr rfl
  unfold csrRegistery
  simp only [List.forall_mem_append, List.forall_mem_cons, List.forall_mem_map]
  refine ⟨⟨⟨.blob _ (by decide), .fixed hignore fun _ => rfl, .fixed hnone fun _ => rfl,
    .fixed hnone fun _ => rfl, .blob _ (by decide), .blob _ (by decide), .mie, .mip,
    .blob _ (by decide), .mideleg, .mstatus, .blob _ (by decide), .blob _ (by decide),
    .blob _ (by decide), .blob _ (by decide), .satp, .sie, .sip, .sstatus, .blob _ (by decide),
    .blob _ (by decide), .blob _ (by decide), .blob _ (by decide), .blob _ (by decide), htime,
    .fixed hignore fun _ => rfl, .fixed hnone fun _ => rfl, .fixed hnone fun _ => rfl,
    .fixed hnone fun _ => rfl, .fixed hnone fun _ => rfl, .fixed hignore fun _ => rfl,
    .fixed hignore fun _ => rfl, .fixed hignore fun _ => rfl, .fixed hignore fun _ => rfl,
    .fixed hnone fun _ => rfl, .fixed hnone fun _ => rfl, .blob _ (by decide),
    .blob _ (by decide), .blob _ (by decide), .blob _ (by decide), fun _ h => nomatch h⟩, ?_⟩, ?_⟩
  · intro idx _
    exact .blob _ (by revert idx; decide)
  · intro idx _
    exact .blob _ (by revert idx; decide)

theorem csrEntryAt_kind {address : CsrAddress} {csr : CsrEntry}
    (h : csrEntryAt address = some csr) : CsrKind address csr := by
  obtain ⟨before, later, hlist, -⟩ := List.lookup_eq_some_iff.mp h
  exact csrRegistery_kinds (address, csr) (by rw [hlist]; simp)

/-- A predicate that survives every kind of CSR write, whatever is written. -/
structure CsrClosed (I : Hart → Prop) : Prop where
  interrupts : ∀ (h : Hart) idelegation ienable ipending, I h →
    I { h with idelegation := idelegation, ienable := ienable, ipending := ipending }
  setStatus : ∀ (h : Hart) status, I h → I { h with status := status }
  setCsrBlob : ∀ h address value, address ≠ CSR_ADDRESS_SATP → I h →
    I (h.setCsrBlob address value)
  writeSatp : ∀ h value, I h → I (writeSatp h value)

theorem CsrClosed.csrWrite {I : Hart → Prop} (hP : CsrClosed I) {address : CsrAddress}
    {csr : CsrEntry} {f : Word → Vm → Vm} (vm : Vm) (value : Word)
    (hcsr : csrEntryAt address = some csr) (hf : csr.write = some f) (h : I vm.hart) :
    I (f value vm).hart := by
  cases csrEntryAt_kind hcsr with
  | blob mask ne_satp =>
      obtain rfl := Option.some.inj hf
      exact hP.setCsrBlob _ _ _ ne_satp h
  | readOnly write read =>
      obtain rfl := write f hf
      exact h
  | mie | mip | mideleg | sie | sip =>
      obtain rfl := Option.some.inj hf
      exact hP.interrupts vm.hart _ _ _ h
  | mstatus | sstatus =>
      obtain rfl := Option.some.inj hf
      exact hP.setStatus vm.hart _ h
  | satp =>
      obtain rfl := Option.some.inj hf
      exact hP.writeSatp vm.hart value h

theorem CsrKind.read_closed {I : Hart → Prop} (hP : PrivilegedClosed I) {address : CsrAddress}
    {csr : CsrEntry} (hkind : CsrKind address csr) {f : Vm → Word × Vm} (hf : csr.read = some f)
    {vm : Vm} (h : I vm.hart) : I (f vm).2.hart := by
  cases hkind with
  | readOnly write read =>
      rcases read f hf vm with heq | heq
      · rw [heq]
        exact h
      · rw [heq]
        exact hP.setTsc vm.hart _ h
  | blob | mie | mip | mideleg | mstatus | satp | sie | sip | sstatus =>
      obtain rfl := Option.some.inj hf
      exact h

section Blocks

variable {I : Hart → Prop} {traps : Hart → BitVec 2 → Word → Prop} {E : Abort → Vm → Prop}
variable (hI : Closed I) (hP : PrivilegedClosed I) (hE : Leaves I traps E)

include hP in
theorem ends_csrRead {address : CsrAddress} {csr : CsrEntry} (hkind : CsrKind address csr) :
    Ends (OnHart I) E (csrRead csr) := by
  unfold csrRead
  cases hread : csr.read with
  | none => exact ends_pure _
  | some f =>
      refine ends_get_bind fun s hs => ?_
      exact hkind.read_closed hP hread hs

include hP in
theorem ends_csrWrite {address : CsrAddress} {csr : CsrEntry}
    (hcsr : csrEntryAt address = some csr) {value : Word} (hmask : value &&& csr.wpriMask = value) :
    Ends (OnHart I) E (csrWrite csr value) := by
  unfold csrWrite
  cases hwrite : csr.write with
  | none => exact ends_pure _
  | some f => exact ends_modify fun s hs => hP.csrWrite s value hcsr hwrite hmask hs

include hI hP hE

theorem ends_riscvGenericCsrCallback (instruction : Word) :
    Ends (OnHart I) E (riscvGenericCsrCallback instruction) := by
  unfold riscvGenericCsrCallback
  refine ends_bind (ends_assert hE _) fun _ => ?_
  simp only
  split
  · exact ends_exit hE
  rename_i csr hcsr
  have hkind := csrEntryAt_kind hcsr
  have hread : Ends (OnHart I) E (csrRead csr) := ends_csrRead hP hkind
  have hwrite : ∀ value, Ends (OnHart I) E (csrWrite csr (value &&& csr.wpriMask)) := by
    intro value
    apply ends_csrWrite hP hcsr
    rw [BitVec.and_assoc, BitVec.and_self]
  have hset : ∀ index value, Ends (OnHart I) E (modifyHart fun h => h.setReg index value) :=
    fun index value => ends_modifyHart fun h => hI.setReg h index value
  refine ends_bind ends_get fun vm => ?_
  split
  · refine ends_ite ?_ (hwrite _)
    exact ends_bind hread fun _ => ends_bind (hset _ _) fun _ => hwrite _
  · refine ends_ite ?_ (hwrite _)
    exact ends_bind hread fun _ => ends_bind (hset _ _) fun _ => hwrite _
  · refine ends_bind hread fun _ => ends_bind (hset _ _) fun _ => ?_
    exact ends_ite (hwrite _) (ends_pure _)
  · refine ends_bind hread fun _ => ends_bind (hset _ _) fun _ => ?_
    exact ends_ite (hwrite _) (ends_pure _)
  · refine ends_bind hread fun _ => ends_bind (hset _ _) fun _ => ?_
    exact ends_ite (hwrite _) (ends_pure _)
  · refine ends_bind hread fun _ => ends_bind (hset _ _) fun _ => ?_
    exact ends_ite (hwrite _) (ends_pure _)
  · exact ends_exit hE

/-! ## Blocks -/

variable (hblock : BlockCauses I traps)
include hblock

omit hI hP in
/-- The callees that leave the CSR file and the registers alone, but for traps and returns. -/
theorem ends_callVmmFn_of_plain (hF : FillClosed I) (hR : ReturnClosed I) (hc : HostCode)
    {f : VmmFn} (hne : f ≠ .riscvGenericCsrCallback) (hwfi : f ≠ .wfiCallback)
    (hamo : f ≠ .amoInstructionSlowpath) (c : Cpu) : Ends (OnHart I) E (callVmmFn hc f c) := by
  have hpure : ∀ v : DWord, Ends (OnHart I) E (pure v : VmM DWord) := fun v => ends_pure v
  unfold callVmmFn
  refine ends_ite (ends_hostFault hE) ?_
  cases f with
  | enterVmmDbgShell => exact hpure _
  | mmuRead8 | mmuRead16 | mmuRead32 =>
      exact ends_bind (ends_vmread hF hE hblock _ _) fun _ => hpure _
  | mmuWrite8 | mmuWrite16 | mmuWrite32 =>
      exact ends_bind (ends_vmwrite hF hE hblock _ _ _) fun _ => hpure _
  | flushTranslationCache => exact ends_bind (ends_modifyHart hR.flush) fun _ => hpure _
  | ebreakCallback => exact ends_bind (ends_pure _) fun _ => hpure _
  | mretCallback => exact ends_bind (ends_mretCallback hE hR hblock) fun _ => hpure _
  | sretCallback => exact ends_bind (ends_sretCallback hE hR hblock) fun _ => hpure _
  | sfenceVmaCallback => exact ends_bind (ends_modifyHart hR.sfenceVma) fun _ => hpure _
  | ecallCallback => exact ends_bind (ends_ecallCallback hE hblock) fun _ => hpure _
  | amoInstructionSlowpath => exact absurd rfl hamo
  | wfiCallback => exact absurd rfl hwfi
  | riscvGenericCsrCallback => exact absurd rfl hne

omit hI hP hblock in
/-- While it waits, `wfi` lets the devices drive their pending bits. -/
theorem ends_callVmmFn_wfi (hP : RefreshClosed I) (hc : HostCode) (c : Cpu) :
    Ends (OnHart I) E (callVmmFn hc .wfiCallback c) := by
  unfold callVmmFn
  refine ends_ite (ends_hostFault hE) ?_
  exact ends_bind (ends_hartIdleLoop hP hE 64) fun _ => ends_pure _

omit hP in
/-- The callees that leave the CSR file alone, but for traps and returns. -/
theorem ends_callVmmFn_of_quiet (hR : ReturnClosed I) (hc : HostCode) {f : VmmFn}
    (hne : f ≠ .riscvGenericCsrCallback) (hwfi : f ≠ .wfiCallback) (c : Cpu) :
    Ends (OnHart I) E (callVmmFn hc f c) := by
  have hindex : ∀ value, Ends (OnHart I) E (indexArgument value) := fun value =>
    ends_ite (ends_pure _) (ends_hostFault hE)
  by_cases hamo : f = .amoInstructionSlowpath
  · subst hamo
    unfold callVmmFn
    refine ends_ite (ends_hostFault hE) ?_
    refine ends_bind (hindex _) fun _ => ends_bind (hindex _) fun _ => ?_
    refine ends_bind (hindex _) fun _ => ?_
    exact ends_bind (ends_amoInstructionSlowpath hI.install hI.setReg hE hblock _ _ _ _) fun _ => ends_pure _
  · exact ends_callVmmFn_of_plain hE hblock hI.install hR hc hne hwfi hamo c

omit hP in
theorem ends_callVmmFn_of_ne_csr (hV : EventClosed I) (hc : HostCode) {f : VmmFn}
    (hne : f ≠ .riscvGenericCsrCallback) (c : Cpu) : Ends (OnHart I) E (callVmmFn hc f c) := by
  by_cases hwfi : f = .wfiCallback
  · subst hwfi
    exact ends_callVmmFn_wfi hE hV.refresh hc c
  · exact ends_callVmmFn_of_quiet hI hE hblock hV.returnClosed hc hne hwfi c

theorem ends_callVmmFn (hc : HostCode) (f : VmmFn) (c : Cpu) :
    Ends (OnHart I) E (callVmmFn hc f c) := by
  by_cases hcsr : f = .riscvGenericCsrCallback
  · subst hcsr
    unfold callVmmFn
    refine ends_ite (ends_hostFault hE) ?_
    exact ends_bind (ends_riscvGenericCsrCallback hI hP hE _) fun _ => ends_pure _
  · exact ends_callVmmFn_of_ne_csr hI hE hblock hP.eventClosed hc hcsr c

omit hP hE hblock in
theorem writeSlot_closed (slot : HartSlot) (value : Word) {h : Hart} (hh : I h) :
    I (h.writeSlot value slot) := by
  cases slot with
  | register index => exact hI.setReg h index value hh
  | pc => exact hI.setPc h value hh

omit hP hblock in
/-- Stores of a block go to registers and the pc; the rest is up to the callees. -/
theorem hostEnv_respects (hc : HostCode) {calls : VmmFn → Prop}
    (hcall : ∀ f c, calls f → Ends (OnHart I) E (callVmmFn hc f c)) :
    (hostEnv hc).Respects calls (OnHart I) E where
  store addr v s t hs hstore := by
    obtain ⟨slot, -, rfl⟩ := Option.map_eq_some_iff.mp hstore
    exact writeSlot_closed hI slot v hs
  call f c s hf hs := hcall f c hf s hs
  fault s hs := hE.stop .hostFault s (by decide) hs

/-- Whatever block runs, with whatever parameters, and however it ends. -/
theorem ends_runBlock (hc : HostCode) (indicator : Indicator) (param : Nat → Word) (c : Cpu) :
    Ends (OnHart I) E (runBlock hc indicator param c) := by
  have henv : (hostEnv hc).Respects (fun _ => True) (OnHart I) E :=
    hostEnv_respects hI hE hc fun f c _ => ends_callVmmFn hI hP hE hblock hc f c
  exact fun _ hs => exec_wp henv (fun _ _ => trivial) 0 c hs

omit hP in
/-- A block that does not touch the CSR file by instruction. -/
theorem ends_runBlock_of_ne_csr (hV : EventClosed I) (hc : HostCode) {indicator : Indicator}
    (hne : indicator ≠ .genericCsr) (param : Nat → Word) (c : Cpu) :
    Ends (OnHart I) E (runBlock hc indicator param c) := by
  have henv : (hostEnv hc).Respects (fun f => f ≠ .riscvGenericCsrCallback) (OnHart I) E :=
    hostEnv_respects hI hE hc fun f c hf => ends_callVmmFn_of_ne_csr hI hE hblock hV hc hf c
  have hcalls : .call .riscvGenericCsrCallback ∉ template indicator := by
    revert hne
    cases indicator <;> decide
  refine fun _ hs => exec_wp henv ?_ 0 c hs
  rintro f hf rfl
  exact hcalls hf

omit hP in
/-- A block that neither touches the CSR file by instruction nor waits for the devices. -/
theorem ends_runBlock_of_quiet (hR : ReturnClosed I) (hc : HostCode) {indicator : Indicator}
    (hne : indicator ≠ .genericCsr) (hwfi : indicator ≠ .wfi) (param : Nat → Word) (c : Cpu) :
    Ends (OnHart I) E (runBlock hc indicator param c) := by
  have henv : (hostEnv hc).Respects
      (fun f => f ≠ .riscvGenericCsrCallback ∧ f ≠ .wfiCallback) (OnHart I) E :=
    hostEnv_respects hI hE hc fun f c hf => ends_callVmmFn_of_quiet hI hE hblock hR hc hf.1 hf.2 c
  have hcalls : .call .riscvGenericCsrCallback ∉ template indicator ∧
      .call .wfiCallback ∉ template indicator := by
    revert hne hwfi
    cases indicator <;> decide
  refine fun _ hs => exec_wp henv ?_ 0 c hs
  intro f hf
  constructor
  · rintro rfl
    exact hcalls.1 hf
  · rintro rfl
    exact hcalls.2 hf

theorem ends_runCache (hc : HostCode) (steps offset : Nat) (c : Cpu) :
    Ends (OnHart I) E (runCache hc steps offset c) := by
  induction steps generalizing offset c with
  | zero => exact ends_pure _
  | succ steps ih =>
      unfold runCache
      refine ends_bind ends_get fun vm => ?_
      split
      · exact ends_pure _
      · refine ends_bind (ends_runBlock hI hP hE hblock hc _ _ c) fun result => ?_
        split
        · exact ih _ _
        · exact ends_pure _
      · exact ends_hostFault hE

end Blocks

end Zelda.Proofs.Callees
