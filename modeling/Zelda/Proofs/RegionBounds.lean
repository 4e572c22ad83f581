import Zelda.Proofs.AddressSpace
import Zelda.Proofs.TlbAgreement
import Zelda.Vmm.Init
/-!
# Accesses and the bounds of their region

The region of an access is looked up once, for the first byte without paging
and for the base of the frame with it.  Whether the whole access stays in the
region depends on where the region ends.
-/

namespace Zelda.Proofs.RegionBounds

open Zelda.Vmm
open Zelda.Lib.Effect
open Zelda.Proofs.AddressSpace
open Zelda.Proofs.Callees
open Zelda.Proofs.Frames
open Zelda.Proofs.PageWalk
open Zelda.Proofs.Prefetch
open Zelda.Proofs.Runs (PrefetchClosed)
open Zelda.Proofs.TlbAgreement (Access)

/-! ## TLB entries -/

/-- The frame of an entry is aligned and begins in the region of the entry. -/
structure FrameInRegion (entry : TlbEntry) : Prop where
  low : entry.pmr.addrLow ≤ entry.paTag
  high : entry.paTag < entry.pmr.addrHigh
  aligned : entry.paTag &&& entry.pageMask = entry.paTag

/-- So for every valid entry. -/
def FramesInRegions (tlb : Tlb) : Prop :=
  ∀ idx, (tlb.entries idx).entryValid = true → FrameInRegion (tlb.entries idx)

structure TlbsInRegions (h : Hart) : Prop where
  itlb : FramesInRegions h.itlb
  dtlb : FramesInRegions h.dtlb

theorem frameInRegion_leafAt {vm : Vm} {va mask frame : Word} {entry : TlbEntry}
    (h : leafAt vm va mask (frame &&& mask) = some (.ok entry)) : FrameInRegion entry := by
  obtain ⟨pmr, hregion, rfl⟩ := leafAt_eq_ok.mp h
  obtain ⟨-, hlow, hhigh⟩ := searchPmRegionCallback_sound hregion
  refine ⟨hlow, hhigh, ?_⟩
  show frame &&& mask &&& mask = frame &&& mask
  rw [BitVec.and_assoc, BitVec.and_self]

theorem frameInRegion_walkLeaf {vm : Vm} {va : Word} {entry : TlbEntry}
    (h : walkLeaf vm va = some (.ok entry)) : FrameInRegion entry := by
  obtain ⟨-, level1Pte, -, -, ⟨-, hleaf⟩ | ⟨-, level2Pte, -, -, hleaf⟩⟩ := walkLeaf_eq_ok.mp h
  · exact frameInRegion_leafAt hleaf
  · exact frameInRegion_leafAt hleaf

theorem framesInRegions_install {tlb : Tlb} {entry : TlbEntry} (h : FramesInRegions tlb)
    (hentry : FrameInRegion entry) (slot : Word) : FramesInRegions (tlb.install slot entry) := by
  intro idx hvalid
  by_cases hslot : idx = slot
  · subst hslot
    simp only [Tlb.install, Function.update_self]
    exact hentry
  · simp only [Tlb.install, Function.update_of_ne hslot] at hvalid ⊢
    exact h idx hvalid

theorem framesInRegions_invalidate {tlb : Tlb} (h : FramesInRegions tlb) :
    FramesInRegions tlb.invalidate := by
  intro idx hvalid
  by_cases hcap : idx < tlb.cap
  · simp only [Tlb.invalidate, if_pos hcap] at hvalid
    cases hvalid
  · simp only [Tlb.invalidate, if_neg hcap] at hvalid ⊢
    exact h idx hvalid

theorem framesInRegions_lookup {tlb : Tlb} (h : FramesInRegions tlb) {va : Word}
    {entry : TlbEntry} (hlook : tlb.vaToTlbEntry va = some entry) : FrameInRegion entry := by
  obtain ⟨hvalid, rfl | ⟨rfl, -⟩⟩ := vaToTlbEntry_eq_some hlook
  · exact h _ hvalid
  · exact h _ hvalid

/-! ## Every operation -/

theorem tlbsInRegions_flushOnChange {h : Hart} (hh : TlbsInRegions h) (tag : Word) :
    TlbsInRegions (h.flushTranslationCacheOnAddressSpaceChange tag) := by
  unfold Hart.flushTranslationCacheOnAddressSpaceChange
  split
  · exact ⟨hh.itlb, hh.dtlb⟩
  · exact hh

theorem closed_tlbsInRegions : Closed TlbsInRegions where
  setReg _ _ _ hh := ⟨hh.itlb, hh.dtlb⟩
  setPc _ _ hh := ⟨hh.itlb, hh.dtlb⟩
  install vm side va entry hleaf hh := by
    have hentry := frameInRegion_walkLeaf hleaf
    cases side with
    | itlb => exact ⟨framesInRegions_install hh.itlb hentry _, hh.dtlb⟩
    | dtlb => exact ⟨hh.itlb, framesInRegions_install hh.dtlb hentry _⟩

theorem csrClosed_tlbsInRegions : CsrClosed TlbsInRegions where
  interrupts _ _ _ _ hh := ⟨hh.itlb, hh.dtlb⟩
  setStatus _ _ hh := ⟨hh.itlb, hh.dtlb⟩
  setCsrBlob _ _ _ _ hh := ⟨hh.itlb, hh.dtlb⟩
  writeSatp _ _ hh := ⟨framesInRegions_invalidate hh.itlb, framesInRegions_invalidate hh.dtlb⟩

theorem privilegedClosed_tlbsInRegions : PrivilegedClosed TlbsInRegions where
  refresh _ _ _ hh := ⟨hh.itlb, hh.dtlb⟩
  setTsc _ _ hh := ⟨hh.itlb, hh.dtlb⟩
  csrWrite vm value hcsr hf _ hh := csrClosed_tlbsInRegions.csrWrite vm value hcsr hf hh
  returnFromMmode h _ _ hh :=
    tlbsInRegions_flushOnChange (h := h.adjustMstatusUponMret.adjustPcUponMret) ⟨hh.itlb, hh.dtlb⟩ _
  returnFromSmode h _ hh :=
    tlbsInRegions_flushOnChange (h := h.adjustMstatusUponSret.adjustPcUponSret) ⟨hh.itlb, hh.dtlb⟩ _
  flush _ hh := ⟨hh.itlb, hh.dtlb⟩
  sfenceVma _ hh := ⟨framesInRegions_invalidate hh.itlb, framesInRegions_invalidate hh.dtlb⟩

theorem prefetchClosed_tlbsInRegions : PrefetchClosed TlbsInRegions where
  commit hcommit hh := by
    obtain ⟨added, item, hadd, -, rfl⟩ := hcommit
    obtain ⟨-, -, rfl⟩ := addTranslationItem_eq hadd
    rw [writeParams_frame]
    exact ⟨hh.itlb, hh.dtlb⟩
  count _ _ hh := ⟨hh.itlb, hh.dtlb⟩
  jumper _ _ hh := ⟨hh.itlb, hh.dtlb⟩
  flush _ hh := ⟨hh.itlb, hh.dtlb⟩

theorem tlbsInRegions_takeTrap (h : Hart) (level : BitVec 2) (cause tval : Word)
    (hh : TlbsInRegions h) : TlbsInRegions (h.takeTrap level cause tval) := by
  rw [takeTrap_frame]
  exact ⟨hh.itlb, hh.dtlb⟩

theorem framesInRegions_of_invalid {tlb : Tlb}
    (h : ∀ idx, (tlb.entries idx).entryValid = false) : FramesInRegions tlb := by
  intro idx hvalid
  rw [h idx] at hvalid
  cases hvalid

theorem reachable_tlbsInRegions {hc : HostCode} {vm : Vm} (h : Reachable hc vm) :
    TlbsInRegions vm.hart := by
  induction h with
  | start unmapped invalid =>
      exact ⟨framesInRegions_of_invalid (invalid .itlb), framesInRegions_of_invalid (invalid .dtlb)⟩
  | step op _ ih =>
      exact (ends_operation closed_tlbsInRegions privilegedClosed_tlbsInRegions
        prefetchClosed_tlbsInRegions tlbsInRegions_takeTrap hc op).finalState ih

/-! ## The callback of an access -/

/-- A region, the address it was looked up with, and how far behind that the access begins. -/
structure Call where
  pmr : PmRegion
  base : Word
  within : Word
  deriving DecidableEq, Repr

/-- The physical address the callback is invoked with. -/
def Call.pa (c : Call) : Word :=
  c.base ||| c.within

/-- A translated address is looked up by the base of its frame. -/
def callThrough (va : Word) (entry : TlbEntry) : Call :=
  { pmr := entry.pmr, base := entry.paTag, within := va &&& ~~~entry.pageMask }

/-- The callback an access invokes; `none` where it traps or ends the process first. -/
def call (vm : Vm) (a : Access) : Option Call :=
  if vm.hart.pagingOn then
    match (vm.hart.tlb a.side).vaToTlbEntry a.va with
    | some entry => some (callThrough a.va entry)
    | none =>
        match walkLeaf vm a.va with
        | some (.ok entry) => some (callThrough a.va entry)
        | _ => none
  else
    match searchPmRegionCallback vm.pmrOps a.va with
    | some (some pmr) => some { pmr := pmr, base := a.va, within := 0 }
    | _ => none

/-- The number of bytes of an access. -/
def bytes : Access → Nat
  | .read _ size => size.bytes
  | .write _ size _ => size.bytes
  | .fetch _ => 4

/-- `pmr_read` or `pmr_write`, with the size and the value of the access. -/
def callback (a : Access) (pmr : PmRegion) (pa : Word) : VmM Unit :=
  match a with
  | .read _ size => do
      let _ ← pmr.pmrRead pa size
  | .write _ size value => pmr.pmrWrite pa size value
  | .fetch _ => do
      let _ ← pmr.pmrRead pa .b4

/-- The access is the callback of `c`, after a TLB fill at most; without one it ends before. -/
def Invokes (vm : Vm) (a : Access) : Option Call → Prop
  | some c => ∃ itlb dtlb,
      a.run vm = callback a c.pmr c.pa
        { vm with hart := { vm.hart with itlb := itlb, dtlb := dtlb } }
  | none => ∃ e t, a.run vm = .error e t ∧ e ≠ .hostFault

theorem finish_eq_callback (a : Access) (entry : TlbEntry) :
    a.finish entry = callback a (callThrough a.va entry).pmr (callThrough a.va entry).pa := by
  cases a <;> rfl

/-- Without paging an access looks its own address up. -/
theorem run_direct {vm : Vm} (a : Access) (hpaging : vm.hart.pagingOn = false) :
    a.run vm =
      match searchPmRegionCallback vm.pmrOps a.va with
      | some (some pmr) => callback a pmr a.va vm
      | _ => .error .exit vm := by
  cases a with
  | read va size =>
      unfold Access.run vmread directRead findPmRegion
      simp only [bind_apply, get_apply, hpaging, Bool.false_eq_true, if_false, Access.va]
      rcases searchPmRegionCallback vm.pmrOps va with _ | _ | pmr <;> rfl
  | write va size value =>
      unfold Access.run vmwrite directWrite findPmRegion
      simp only [bind_apply, get_apply, hpaging, Bool.false_eq_true, if_false, Access.va]
      rcases searchPmRegionCallback vm.pmrOps va with _ | _ | pmr <;> rfl
  | fetch va =>
      unfold Access.run mmuInstructionRead32 directRead findPmRegion
      simp only [bind_apply, get_apply, hpaging, Bool.false_eq_true, if_false, Access.va]
      rcases searchPmRegionCallback vm.pmrOps va with _ | _ | pmr
      · rfl
      · rfl
      · simp only [callback, bind_apply, pure_apply]
        cases pmr.pmrRead va .b4 vm <;> rfl

theorem cached_tlbs (vm : Vm) (side : TlbSide) (va : Word) (entry : TlbEntry) :
    ∃ itlb dtlb, cached vm side va entry =
      { vm with hart := { vm.hart with itlb := itlb, dtlb := dtlb } } := by
  cases side with
  | itlb => exact ⟨_, vm.hart.dtlb, rfl⟩
  | dtlb => exact ⟨vm.hart.itlb, _, rfl⟩

theorem invokes_call (vm : Vm) (a : Access) : Invokes vm a (call vm a) := by
  unfold call
  by_cases hpaging : vm.hart.pagingOn = true
  · rw [if_pos hpaging]
    have hrun := a.run_eq hpaging
    have htranslate := translateAddress_apply a.side a.fault_lt a.va vm
    cases hlook : (vm.hart.tlb a.side).vaToTlbEntry a.va with
    | some entry =>
        simp only [hlook] at htranslate
        rw [bind_apply_ok htranslate, finish_eq_callback] at hrun
        exact ⟨vm.hart.itlb, vm.hart.dtlb, hrun⟩
    | none =>
        rcases hleaf : walkLeaf vm a.va with _ | (rc | entry)
        · simp only [hlook, hleaf] at htranslate
          rw [bind_apply_error htranslate] at hrun
          exact ⟨_, _, hrun, by decide⟩
        · simp only [hlook, hleaf] at htranslate
          rw [bind_apply_error htranslate] at hrun
          exact ⟨_, _, hrun, by decide⟩
        · simp only [hlook, hleaf] at htranslate
          rw [bind_apply_ok htranslate, finish_eq_callback] at hrun
          obtain ⟨itlb, dtlb, hcached⟩ := cached_tlbs vm a.side a.va entry
          rw [hcached] at hrun
          exact ⟨itlb, dtlb, hrun⟩
  · rw [if_neg hpaging]
    have hrun := run_direct a (Bool.not_eq_true _ ▸ hpaging)
    rcases hregion : searchPmRegionCallback vm.pmrOps a.va with _ | _ | pmr
    · rw [hregion] at hrun
      exact ⟨_, _, hrun, by decide⟩
    · rw [hregion] at hrun
      exact ⟨_, _, hrun, by decide⟩
    · rw [hregion] at hrun
      refine ⟨vm.hart.itlb, vm.hart.dtlb, ?_⟩
      have hpa : a.va ||| 0 = a.va := BitVec.or_zero
      show _ = callback a pmr (a.va ||| 0) vm
      rw [hpa]
      exact hrun

/-! ## Room in the region -/

/-- What an access needs to be inside its region. -/
structure Inside (vm : Vm) (a : Access) (c : Call) : Prop where
  low : c.pmr.addrLow ≤ c.pa
  high : c.pa.toNat + bytes a ≤ c.pmr.addrHigh.toNat
  /-- `ram_init` makes the region of main memory as long as main memory. -/
  host : c.pmr.ops = .ram → c.pmr.addrHigh.toNat = c.pmr.addrLow.toNat + vm.mainMem.size →
    c.pmr.offset c.pa + bytes a ≤ vm.mainMem.size

/-- Every callback the access invokes stays in its region. -/
def StaysInside (vm : Vm) (a : Access) : Prop :=
  ∀ c, call vm a = some c → Inside vm a c

/-- The region does not end between the address looked up and the end of the access. -/
def HasRoom (vm : Vm) (a : Access) : Prop :=
  ∀ c, call vm a = some c → c.within.toNat + bytes a ≤ c.pmr.addrHigh.toNat - c.base.toNat

/-- The region of a call contains the address looked up, and nothing overlaps in the sum. -/
structure Looked (c : Call) : Prop where
  low : c.pmr.addrLow ≤ c.base
  high : c.base < c.pmr.addrHigh
  disjoint : c.base &&& c.within = 0

theorem looked_callThrough {entry : TlbEntry} (h : FrameInRegion entry) (va : Word) :
    Looked (callThrough va entry) := by
  refine ⟨h.low, h.high, ?_⟩
  show entry.paTag &&& (va &&& ~~~entry.pageMask) = 0
  rw [← h.aligned]
  apply BitVec.eq_of_getLsbD_eq
  intro i _
  simp only [BitVec.getLsbD_and, BitVec.getLsbD_not]
  cases entry.pageMask.getLsbD i <;> simp

theorem looked_call {vm : Vm} (hvm : TlbsInRegions vm.hart) {a : Access} {c : Call}
    (h : call vm a = some c) : Looked c := by
  unfold call at h
  split at h
  · split at h
    · rename_i entry hlook
      obtain rfl := Option.some.inj h
      refine looked_callThrough (framesInRegions_lookup ?_ hlook) a.va
      cases a.side with
      | itlb => exact hvm.itlb
      | dtlb => exact hvm.dtlb
    · split at h
      · rename_i entry hleaf
        obtain rfl := Option.some.inj h
        exact looked_callThrough (frameInRegion_walkLeaf hleaf) a.va
      · cases h
  · split at h
    · rename_i pmr hregion
      obtain rfl := Option.some.inj h
      obtain ⟨-, hlow, hhigh⟩ := searchPmRegionCallback_sound hregion
      exact ⟨hlow, hhigh, BitVec.and_zero⟩
    · cases h

theorem Looked.toNat_pa {c : Call} (h : Looked c) : c.pa.toNat = c.base.toNat + c.within.toNat := by
  unfold Call.pa
  rw [← BitVec.add_eq_or_of_and_eq_zero _ _ h.disjoint, BitVec.toNat_add_of_and_eq_zero h.disjoint]

theorem offset_eq {pmr : PmRegion} {pa : Word} (h : pmr.addrLow ≤ pa) :
    pmr.offset pa = pa.toNat - pmr.addrLow.toNat := by
  unfold PmRegion.offset
  rw [BitVec.le_def] at h
  have hpa := pa.isLt
  have hlow := pmr.addrLow.isLt
  rw [BitVec.toNat_sub, BitVec.toNat_setWidth, BitVec.toNat_setWidth]
  omega

theorem Looked.inside_iff {c : Call} (h : Looked c) (vm : Vm) (a : Access) :
    Inside vm a c ↔ c.within.toNat + bytes a ≤ c.pmr.addrHigh.toNat - c.base.toNat := by
  have hpa := h.toNat_pa
  have hlow := h.low
  have hhigh := h.high
  rw [BitVec.le_def] at hlow
  rw [BitVec.lt_def] at hhigh
  constructor
  · intro hinside
    have := hinside.high
    omega
  · intro hroom
    have hle : c.pmr.addrLow ≤ c.pa := by
      rw [BitVec.le_def]
      omega
    refine ⟨hle, by omega, fun _ hsize => ?_⟩
    rw [offset_eq hle]
    omega

/--
In every state of every run, a load, a store or a fetch invokes at most one
callback, and it stays inside the region exactly when the region leaves room
for it behind the address that was looked up.
-/
theorem access_inside_iff {hc : HostCode} {vm : Vm} (h : Reachable hc vm) (a : Access) :
    Invokes vm a (call vm a) ∧ (StaysInside vm a ↔ HasRoom vm a) := by
  have hvm := reachable_tlbsInRegions h
  refine ⟨invokes_call vm a, ?_, ?_⟩
  · intro hstays c hcall
    exact ((looked_call hvm hcall).inside_iff vm a).mp (hstays c hcall)
  · intro hroom c hcall
    exact ((looked_call hvm hcall).inside_iff vm a).mpr (hroom c hcall)

/-! ## At the two ends of main memory -/

def freshVm : Vm := virtualMachineInit (fun _ => 0) fun _ => 0

theorem reachable_freshVm : Reachable evenHostCode freshVm :=
  .start rfl (by rintro (_ | _) idx <;> rfl)

theorem access_inside_first :
    HasRoom freshVm (.read 0x80000000 .b4) ∧ StaysInside freshVm (.read 0x80000000 .b4) := by
  have hroom : HasRoom freshVm (.read 0x80000000 .b4) := by
    have hcall : call freshVm (.read 0x80000000 .b4) =
        some ⟨⟨0x80000000, 0x90000000, .ram⟩, 0x80000000, 0⟩ := by decide +kernel
    intro c hc
    obtain rfl := Option.some.inj (hcall.symm.trans hc)
    decide
  exact ⟨hroom, (access_inside_iff reachable_freshVm _).2.mpr hroom⟩

/-- A word load two bytes before the end of main memory reads host memory behind it. -/
theorem last_word_leaves_ram :
    Reachable evenHostCode freshVm ∧ ¬StaysInside freshVm (.read 0x8ffffffe .b4) ∧
      ramRead ⟨0x80000000, 0x90000000, .ram⟩ 0x8ffffffe .b4 freshVm = .error .hostFault freshVm := by
  refine ⟨reachable_freshVm, fun hstays => ?_, rfl⟩
  have hcall : call freshVm (.read 0x8ffffffe .b4) =
      some ⟨⟨0x80000000, 0x90000000, .ram⟩, 0x8ffffffe, 0⟩ := by decide +kernel
  exact absurd (hstays _ hcall).high (by decide)

end Zelda.Proofs.RegionBounds
