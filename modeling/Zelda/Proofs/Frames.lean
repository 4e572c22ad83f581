import Zelda.Proofs.PageWalk
/-!
# Frames of the memory accesses

Which parts of the machine a physical or a paged access can touch.  A region
callback never raises a guest trap; a paged access raises one only when the
walk finds no leaf, and then nothing but the trap itself has happened.
-/

namespace Zelda.Proofs.Frames

open Zelda.Vmm
open Zelda.Lib.Effect

/-! ## Physical accesses -/

/-- A read touches at most the interrupt controller and the console. -/
def ReadFrame (s t : Vm) : Prop :=
  t = { s with plic := t.plic, uart := t.uart }

/-- A write touches at most the memories and the devices. -/
def WriteFrame (s t : Vm) : Prop :=
  t = { s with
    mainMem := t.mainMem, bootrom := t.bootrom, clint := t.clint, plic := t.plic
    uart := t.uart, hostOutput := t.hostOutput }

theorem ReadFrame.refl (s : Vm) : ReadFrame s s := rfl

theorem WriteFrame.refl (s : Vm) : WriteFrame s s := rfl

theorem ReadFrame.writeFrame {s t : Vm} (h : ReadFrame s t) : WriteFrame s t := by
  rw [ReadFrame] at h
  rw [WriteFrame, h]

/-- The abnormal outcomes of a region callback leave everything in place. -/
def NoTrap (s : Vm) (e : Abort) (t : Vm) : Prop :=
  e ≠ .trap ∧ t = s

theorem pmrRead_frame (pmr : PmRegion) (addr : Word) (size : AccessSize) (s : Vm) :
    Wp (pmr.pmrRead addr size) (fun _ t => ReadFrame s t) (NoTrap s) s := by
  unfold PmRegion.pmrRead
  split
  · unfold ramRead
    simp only [wp_bind, wp_get]
    split <;> simp [ReadFrame.refl, NoTrap]
  · unfold bootromRead
    simp only [wp_bind, wp_get]
    split
    · simp [ReadFrame.refl]
    split <;> simp [ReadFrame.refl, NoTrap]
  · exact ReadFrame.refl s
  · exact rfl
  · exact rfl
  · exact ReadFrame.refl s

theorem pmrWrite_frame (pmr : PmRegion) (addr : Word) (size : AccessSize) (value : DWord)
    (s : Vm) :
    Wp (pmr.pmrWrite addr size value) (fun _ t => WriteFrame s t) (NoTrap s) s := by
  unfold PmRegion.pmrWrite
  split
  · unfold ramWrite
    simp only [wp_bind, wp_get]
    split <;> simp [WriteFrame, NoTrap]
  · unfold bootromWrite
    simp only [wp_bind, wp_get]
    split
    · simp [WriteFrame.refl]
    split <;> simp [WriteFrame, NoTrap]
  · exact rfl
  · exact rfl
  · unfold uartMmioWrite
    split
    · exact WriteFrame.refl s
    · exact rfl
  · unfold sysconWrite
    split <;> simp [WriteFrame.refl, NoTrap]

theorem findPmRegion_frame (guestPa : Word) (s : Vm) :
    Wp (findPmRegion guestPa) (fun _ t => t = s) (NoTrap s) s := by
  unfold findPmRegion
  simp only [wp_bind, wp_get]
  split <;> simp [NoTrap]

theorem directRead_frame (addr : Word) (size : AccessSize) (s : Vm) :
    Wp (directRead addr size) (fun _ t => ReadFrame s t) (NoTrap s) s := by
  unfold directRead
  rw [wp_bind]
  refine wp_mono (findPmRegion_frame addr s) ?_ fun _ _ h => h
  rintro (_ | pmr) t rfl
  · simp [NoTrap]
  · exact pmrRead_frame pmr addr size t

theorem directWrite_frame (addr : Word) (size : AccessSize) (value : DWord) (s : Vm) :
    Wp (directWrite addr size value) (fun _ t => WriteFrame s t) (NoTrap s) s := by
  unfold directWrite
  rw [wp_bind]
  refine wp_mono (findPmRegion_frame addr s) ?_ fun _ _ h => h
  rintro (_ | pmr) t rfl
  · simp [NoTrap]
  · exact pmrWrite_frame pmr addr size value t

/-! ## Exceptions -/

/-- The machine right after an exception has been taken. -/
def excepted (s : Vm) (cause : Nat) (tval : Word) : Vm :=
  { s with
    hart := s.hart.takeTrap (s.hart.exceptionTargetPrivilegeLevel cause) (BitVec.ofNat 32 cause)
      tval }

theorem exceptionTarget_cases (h : Hart) (cause : Nat) :
    h.exceptionTargetPrivilegeLevel cause = PRIVILEGE_LEVEL_SUPERVISOR ∨
      h.exceptionTargetPrivilegeLevel cause = PRIVILEGE_LEVEL_MACHINE := by
  unfold Hart.exceptionTargetPrivilegeLevel
  split
  · exact .inl rfl
  · exact .inr rfl

theorem raiseTrapRaw_apply {α : Type} {level : BitVec 2} (cause tval : Word) (s : Vm)
    (h : level = PRIVILEGE_LEVEL_SUPERVISOR ∨ level = PRIVILEGE_LEVEL_MACHINE) :
    (raiseTrapRaw level cause tval : VmM α) s =
      .error .trap { s with hart := s.hart.takeTrap level cause tval } := by
  rcases h with rfl | rfl <;> rfl

theorem raiseExceptionWithTvalue_apply {α : Type} {cause : Nat} (tval : Word) (s : Vm)
    (h : cause < 16) :
    (raiseExceptionWithTvalue cause tval : VmM α) s = .error .trap (excepted s cause tval) := by
  unfold raiseExceptionWithTvalue
  rw [bind_apply_ok (get_apply s)]
  simp only [h, decide_true, assert, if_true]
  rw [bind_apply_ok (pure_apply () s)]
  exact raiseTrapRaw_apply _ _ s (exceptionTarget_cases _ _)

/-! ## What a trap handler finds -/

/-- The cause register of the level the hart is in. -/
def trapCause (h : Hart) : Word :=
  if h.privilegeLevel = PRIVILEGE_LEVEL_MACHINE then h.csrBlob CSR_ADDRESS_MCAUSE
  else h.csrBlob CSR_ADDRESS_SCAUSE

/-- The saved pc of the level the hart is in. -/
def trapEpc (h : Hart) : Word :=
  if h.privilegeLevel = PRIVILEGE_LEVEL_MACHINE then h.csrBlob CSR_ADDRESS_MEPC
  else h.csrBlob CSR_ADDRESS_SEPC

/-- The trap value of the level the hart is in. -/
def trapTval (h : Hart) : Word :=
  if h.privilegeLevel = PRIVILEGE_LEVEL_MACHINE then h.csrBlob CSR_ADDRESS_MTVAL
  else h.csrBlob CSR_ADDRESS_STVAL

/-- The flush at the end of a trap touches neither the level nor the registers. -/
theorem flushOnChange_frame (h : Hart) (tag : Word) :
    h.flushTranslationCacheOnAddressSpaceChange tag =
      { h with
        pcMappings := (h.flushTranslationCacheOnAddressSpaceChange tag).pcMappings
        translationCachePtr :=
          (h.flushTranslationCacheOnAddressSpaceChange tag).translationCachePtr } := by
  unfold Hart.flushTranslationCacheOnAddressSpaceChange
  split <;> rfl

/-- What a trap can change of the hart. -/
theorem takeTrap_frame (h : Hart) (level : BitVec 2) (cause tval : Word) :
    h.takeTrap level cause tval =
      { h with
        pc := (h.takeTrap level cause tval).pc
        csrBlob := (h.takeTrap level cause tval).csrBlob
        status := (h.takeTrap level cause tval).status
        privilegeLevel := (h.takeTrap level cause tval).privilegeLevel
        pcMappings := (h.takeTrap level cause tval).pcMappings
        translationCachePtr := (h.takeTrap level cause tval).translationCachePtr } := by
  unfold Hart.takeTrap
  rw [flushOnChange_frame]
  split <;> rfl

theorem takeTrap_registers (h : Hart) (level : BitVec 2) (cause tval : Word) :
    (h.takeTrap level cause tval).registers = h.registers := by
  rw [takeTrap_frame]

theorem takeTrap_hartId (h : Hart) (level : BitVec 2) (cause tval : Word) :
    (h.takeTrap level cause tval).hartId = h.hartId := by
  rw [takeTrap_frame]

theorem takeTrap_handler (h : Hart) {level : BitVec 2} (cause tval : Word)
    (hlevel : level = PRIVILEGE_LEVEL_SUPERVISOR ∨ level = PRIVILEGE_LEVEL_MACHINE) :
    trapCause (h.takeTrap level cause tval) = cause ∧
      trapEpc (h.takeTrap level cause tval) = h.pc ∧
      trapTval (h.takeTrap level cause tval) = tval := by
  unfold Hart.takeTrap
  rw [flushOnChange_frame]
  rcases hlevel with rfl | rfl
  · exact ⟨rfl, rfl, rfl⟩
  · exact ⟨rfl, rfl, rfl⟩

theorem excepted_handler (s : Vm) (cause : Nat) (tval : Word) :
    trapCause (excepted s cause tval).hart = BitVec.ofNat 32 cause ∧
      trapEpc (excepted s cause tval).hart = s.hart.pc ∧
      trapTval (excepted s cause tval).hart = tval :=
  takeTrap_handler s.hart _ tval (exceptionTarget_cases s.hart cause)

/-! ## Translation of one address -/

theorem vaToTlbEntry_eq_none {tlb : Tlb} {va : Word} :
    tlb.vaToTlbEntry va = none ↔
      (tlb.entries (tlb.slot4K va)).entryValid = false ∧
        (tlb.entries (tlb.slot4M va)).entryValid = false := by
  unfold Tlb.vaToTlbEntry
  by_cases h : (tlb.entries (tlb.slot4K va)).entryValid = true
  · simp [h]
  · simp [h]

/-- A hit comes from one of the two slots, the 4K slot first. -/
theorem vaToTlbEntry_eq_some {tlb : Tlb} {va : Word} {entry : TlbEntry}
    (h : tlb.vaToTlbEntry va = some entry) :
    entry.entryValid = true ∧
      (entry = tlb.entries (tlb.slot4K va) ∨
        entry = tlb.entries (tlb.slot4M va) ∧
          (tlb.entries (tlb.slot4K va)).entryValid = false) := by
  unfold Tlb.vaToTlbEntry at h
  by_cases h4K : (tlb.entries (tlb.slot4K va)).entryValid = true
  · simp only [h4K, if_true] at h
    obtain rfl := Option.some.inj h
    exact ⟨h4K, .inl rfl⟩
  · simp only [h4K, if_false, Bool.false_eq_true] at h
    by_cases h4M : (tlb.entries (tlb.slot4M va)).entryValid = true
    · simp only [h4M, if_true] at h
      obtain rfl := Option.some.inj h
      exact ⟨h4M, .inr ⟨rfl, by simpa using h4K⟩⟩
    · simp [h4M] at h

/-- After a miss, the entry a walk installs is the one found. -/
theorem vaToTlbEntry_install {tlb : Tlb} {va : Word} {entry : TlbEntry}
    (hmiss : tlb.vaToTlbEntry va = none) (hvalid : entry.entryValid = true) :
    (tlb.install (PageWalk.leafSlot tlb va entry.pageMask) entry).vaToTlbEntry va =
      some entry := by
  obtain ⟨h4K, h4M⟩ := vaToTlbEntry_eq_none.mp hmiss
  have hslot4K : ∀ slot, (tlb.install slot entry).slot4K va = tlb.slot4K va := fun _ => rfl
  have hslot4M : ∀ slot, (tlb.install slot entry).slot4M va = tlb.slot4M va := fun _ => rfl
  unfold Tlb.vaToTlbEntry PageWalk.leafSlot
  rw [hslot4K, hslot4M]
  split
  · by_cases hsame : tlb.slot4K va = tlb.slot4M va
    · simp [Tlb.install, hsame, hvalid]
    · simp [Tlb.install, hsame, h4K, hvalid]
  · simp [Tlb.install, hvalid]

/-- The machine after a walk has cached a leaf. -/
def cached (s : Vm) (side : TlbSide) (va : Word) (entry : TlbEntry) : Vm :=
  { s with
    hart := s.hart.setTlb side
      ((s.hart.tlb side).install (PageWalk.leafSlot (s.hart.tlb side) va entry.pageMask) entry) }

theorem setTlb_tlb (h : Hart) (side : TlbSide) : h.setTlb side (h.tlb side) = h := by
  cases side <;> rfl

/-- Everything `translateAddress` can do. -/
theorem translateAddress_apply (side : TlbSide) {fault : Nat} (hfault : fault < 16) (va : Word)
    (s : Vm) :
    translateAddress side fault va s =
      match (s.hart.tlb side).vaToTlbEntry va with
      | some entry => .ok entry s
      | none =>
          match PageWalk.walkLeaf s va with
          | none => .error .exit s
          | some (.ok entry) => .ok entry (cached s side va entry)
          | some (.error _) => .error .trap (excepted s fault va) := by
  unfold translateAddress
  rw [bind_apply_ok (get_apply s)]
  cases hlook : (s.hart.tlb side).vaToTlbEntry va with
  | some entry => rfl
  | none =>
      simp only
      rw [PageWalk.walkPageTable_eq]
      rcases hleaf : PageWalk.walkLeaf s va with _ | (rc | entry)
      · rfl
      · simp only [Option.map_some, PageWalk.fill]
        rw [bind_apply_ok (set_apply s _), hlook, setTlb_tlb]
        exact raiseExceptionWithTvalue_apply va s hfault
      · simp only [Option.map_some, PageWalk.fill]
        rw [bind_apply_ok (set_apply s _),
          vaToTlbEntry_install hlook (PageWalk.walkLeaf_ok hleaf).1]
        rfl

/-! ## Instruction fetch -/

/-- A fetch touches at most the instruction TLB, the interrupt controller and the console. -/
def FetchFrame (s t : Vm) : Prop :=
  t = { s with hart := { s.hart with itlb := t.hart.itlb }, plic := t.plic, uart := t.uart }

/-- The fetch from `va` finds no translation. -/
structure FetchFault (s : Vm) (va : Word) : Prop where
  pagingOn : s.hart.pagingOn = true
  missed : s.hart.itlb.vaToTlbEntry va = none
  walk : ∃ rc, PageWalk.walkLeaf s va = some (.error rc)

/-- The machine after the trap of a failed fetch. -/
def fetchFaulted (s : Vm) (va : Word) : Vm :=
  excepted s EXCEPTION_INSTRUCTION_PAGE_FAULT va

theorem ReadFrame.fetchFrame {s t u : Vm} (h' : ReadFrame t u) (h : FetchFrame s t) :
    FetchFrame s u := by
  rw [FetchFrame] at h
  rw [ReadFrame] at h'
  rw [FetchFrame, h', h]

theorem fetchFrame_cached (s : Vm) (va : Word) (entry : TlbEntry) :
    FetchFrame s (cached s .itlb va entry) := rfl

/-- A fetch succeeds within its frame, and traps only for want of a translation. -/
theorem mmuInstructionRead32_frame (va : Word) (s : Vm) :
    Wp (mmuInstructionRead32 va) (fun _ t => FetchFrame s t)
      (fun e t => e = .trap → FetchFault s va ∧ t = fetchFaulted s va) s := by
  unfold mmuInstructionRead32
  simp only [wp_bind, wp_get]
  split
  · rename_i hpaging
    have hread : ∀ (t : Vm) (entry : TlbEntry), FetchFrame s t →
        Wp (entry.pmr.pmrRead (entry.physical va) .b4) (fun _ u => FetchFrame s u)
          (fun e u => e = .trap → FetchFault s va ∧ u = fetchFaulted s va) t := by
      intro t entry ht
      refine wp_mono (pmrRead_frame _ _ _ t) (fun _ u hu => hu.fetchFrame ht) ?_
      rintro e u ⟨hne, -⟩ he
      exact absurd he hne
    have htranslate := translateAddress_apply .itlb
      (by decide : EXCEPTION_INSTRUCTION_PAGE_FAULT < 16) va s
    cases hlook : s.hart.itlb.vaToTlbEntry va with
    | some entry =>
        simp only [Hart.tlb, hlook] at htranslate
        rw [wp_bind, wp_of_ok htranslate, wp_bind]
        exact hread s entry rfl
    | none =>
        rcases hleaf : PageWalk.walkLeaf s va with _ | (rc | entry)
        · simp only [Hart.tlb, hlook, hleaf] at htranslate
          rw [wp_bind, wp_of_error htranslate]
          intro h
          cases h
        · simp only [Hart.tlb, hlook, hleaf] at htranslate
          rw [wp_bind, wp_of_error htranslate]
          exact fun _ => ⟨⟨hpaging, hlook, rc, hleaf⟩, rfl⟩
        · simp only [Hart.tlb, hlook, hleaf] at htranslate
          rw [wp_bind, wp_of_ok htranslate, wp_bind]
          exact hread _ entry (fetchFrame_cached s va entry)
  · rw [wp_bind]
    refine wp_mono (directRead_frame va .b4 s) (fun _ t h => h.fetchFrame (rfl : FetchFrame s s)) ?_
    rintro e t ⟨hne, -⟩ he
    exact absurd he hne

theorem mmuInstructionRead32_of_fault {s : Vm} {va : Word} (h : FetchFault s va) :
    mmuInstructionRead32 va s = .error .trap (fetchFaulted s va) := by
  obtain ⟨hpaging, hmissed, rc, hleaf⟩ := h
  have htranslate := translateAddress_apply .itlb
    (by decide : EXCEPTION_INSTRUCTION_PAGE_FAULT < 16) va s
  simp only [Hart.tlb, hmissed, hleaf] at htranslate
  unfold mmuInstructionRead32
  rw [bind_apply_ok (get_apply s), if_pos hpaging, bind_apply_error htranslate]
  rfl

end Zelda.Proofs.Frames
