import Zelda.Proofs.DataAccess
import Zelda.Proofs.MemoryTemplates
/-!
# Memory instructions

Loads, stores and atomic operations as the blocks the translators emit for
them, and the faults they can take.
-/

namespace Zelda.Proofs.MemoryInstructions

open Zelda.Vmm
open Zelda.Isa (LoadOp StoreOp RmwOp)
open Zelda.Lib.Effect
open Zelda.Lib.X86
open Zelda.Proofs.Frames
open Zelda.Proofs.DataAccess
open Zelda.Proofs.Decode (loadIndicator storeIndicator)
open Zelda.Proofs.PageWalk
open Zelda.Proofs.Templates
open Zelda.Proofs.MemoryTemplates

/-! ## The instructions -/

/-- An instruction with the operands its block is given. -/
inductive MemoryInstr
  | load (l : LoadOp) (rd rs1 : RegIndex) (offset : Word)
  | store (st : StoreOp) (rs1 rs2 : RegIndex) (offset : Word)
  | lr (rd rs1 rs2 : RegIndex)
  | sc (rd rs1 rs2 : RegIndex)
  | amo (op : RmwOp) (rd rs1 rs2 : RegIndex)
  deriving DecidableEq, Repr

namespace MemoryInstr

def indicator : MemoryInstr → Indicator
  | load l .. => loadIndicator l
  | store st .. => storeIndicator st
  | lr .. | sc .. | amo .. => .amo

/-- The parameter words of an atomic block. -/
def atomicParam (rd rs1 rs2 : RegIndex) (funct5 : Word) : Nat → Word
  | 0 => indexParam rs1
  | 1 => indexParam rs2
  | 2 => indexParam rd
  | _ => funct5

def param : MemoryInstr → Nat → Word
  | load _ rd rs1 offset, k =>
      match k with
      | 0 => offset
      | 1 => indexParam rs1
      | _ => indexParam rd
  | store _ rs1 rs2 offset, k =>
      match k with
      | 0 => offset
      | 1 => indexParam rs1
      | _ => indexParam rs2
  | lr rd rs1 rs2, k => atomicParam rd rs1 rs2 0x2 k
  | sc rd rs1 rs2, k => atomicParam rd rs1 rs2 0x3 k
  | amo op rd rs1 rs2, k => atomicParam rd rs1 rs2 (op.funct5.setWidth 32) k

/-- The virtual address an instruction works on. -/
def address (h : Hart) : MemoryInstr → Word
  | load _ _ rs1 offset | store _ rs1 _ offset => h.registers rs1 + offset
  | lr _ rs1 _ | sc _ rs1 _ | amo _ _ rs1 _ => h.registers rs1

/-- What the block has the vmm do; the result is what is left to do to the hart. -/
def access : MemoryInstr → VmM (Hart → Hart)
  | load l rd rs1 offset => do
      let vm ← get
      let value ← vmread (vm.hart.registers rs1 + offset) l.size
      pure fun h => retired h rd (l.widen value)
  | store st rs1 rs2 offset => do
      let vm ← get
      vmwrite (vm.hart.registers rs1 + offset) st.size (st.narrow (vm.hart.registers rs2))
      pure proceeded
  | lr rd rs1 rs2 => do
      lrSlowpath rs1 rs2 rd
      pure fun h => proceeded (h.setReg 0 0)
  | sc rd rs1 rs2 => do
      scSlowpath rs1 rs2 rd
      pure fun h => proceeded (h.setReg 0 0)
  | amo op rd rs1 rs2 => do
      amoSlowpath (fun rd rs2 => op.combine rd rs2) rs1 rs2 rd
      pure fun h => proceeded (h.setReg 0 0)

/-- The block of an instruction. -/
def run (hc : HostCode) (c : Cpu) (i : MemoryInstr) : VmM (End × Cpu) :=
  runBlock hc i.indicator i.param c

/-- A block with the parameters of the instruction. -/
def Emits (e : Emitted) (i : MemoryInstr) : Prop :=
  e.indicator = i.indicator ∧ ∀ k param, e.params[k]? = some param → param = i.param k

section Emits

variable {dec : Decoding} {e : Emitted}

theorem funct5_setWidth (funct7 : BitVec 7) :
    funct7.setWidth 32 >>> 2 = (funct7 >>> 2).setWidth 32 := by
  revert funct7
  decide

theorem emits_amoTranslator {i : MemoryInstr} {funct5 : BitVec 7}
    (hindicator : i.indicator = .amo)
    (hparam : i.param = atomicParam dec.rdIndex dec.rs1Index dec.rs2Index (funct5.setWidth 32))
    (hfunct5 : dec.funct7 >>> 2 = funct5) : Emits (riscvAmoTranslator dec) i := by
  refine ⟨hindicator.symm, ?_⟩
  intro k param hk
  rw [hparam, ← hfunct5, ← funct5_setWidth]
  match k with
  | 0 | 1 | 2 | 3 => exact (Option.some.inj hk).symm

end Emits

section Run

variable {hc : HostCode} {c : Cpu} {vm : Vm} {Q : End × Cpu → Vm → Prop} {E : Abort → Vm → Prop}

theorem amoInstructionSlowpath_amo (op : RmwOp) (rs1 rs2 rd : RegIndex) :
    amoInstructionSlowpath rs1 rs2 rd (op.funct5.setWidth 32) =
      amoSlowpath (fun rd rs2 => op.combine rd rs2) rs1 rs2 rd := by
  cases op <;> rfl

theorem run_wp (i : MemoryInstr) (hready : Ready hc c)
    (h : Wp i.access (fun f t => ∀ c', Q (.fallThrough, c') { t with hart := f t.hart }) E vm) :
    Wp (i.run hc c) Q E vm := by
  have hatomic : ∀ {rd rs1 rs2 : RegIndex} {funct5 : Word} {m : VmM Unit},
      amoInstructionSlowpath rs1 rs2 rd funct5 = m →
      Wp (m >>= fun _ => pure fun h : Hart => proceeded (h.setReg 0 0))
        (fun f t => ∀ c', Q (.fallThrough, c') { t with hart := f t.hart }) E vm →
      Wp (runBlock hc .amo (atomicParam rd rs1 rs2 funct5) c) Q E vm := by
    intro rd rs1 rs2 funct5 m hm hwp
    apply runBlock_wp hready
    intro c' hready'
    apply execWp_amo hready' rfl rfl rfl
    rw [wp_bind] at hwp
    show Wp (amoInstructionSlowpath rs1 rs2 rd funct5) _ _ _
    rw [hm]
    exact hwp
  cases i with
  | load l rd rs1 offset =>
      apply runBlock_wp hready
      intro c' hready'
      have h1 : (load l rd rs1 offset).param 1 = indexParam rs1 := rfl
      have h2 : (load l rd rs1 offset).param 2 = indexParam rd := rfl
      apply execWp_load l hready' h1 h2
      simp only [access, wp_bind, wp_get, wp_pure] at h
      exact h
  | store st rs1 rs2 offset =>
      apply runBlock_wp hready
      intro c' hready'
      have h1 : (store st rs1 rs2 offset).param 1 = indexParam rs1 := rfl
      have h2 : (store st rs1 rs2 offset).param 2 = indexParam rs2 := rfl
      apply execWp_store st hready' h1 h2
      simp only [access, wp_bind, wp_get, wp_pure] at h
      exact h
  | lr rd rs1 rs2 => exact hatomic rfl h
  | sc rd rs1 rs2 => exact hatomic rfl h
  | amo op rd rs1 rs2 => exact hatomic (amoInstructionSlowpath_amo op rs1 rs2 rd) h

/-- A block fails as its access does. -/
theorem run_of_error {i : MemoryInstr} (hready : Ready hc c) {e : Abort} {t : Vm}
    (h : i.access vm = .error e t) : i.run hc c vm = .error e t := by
  have hwp : Wp (i.run hc c) (fun _ _ => False) (fun e' t' => e' = e ∧ t' = t) vm := by
    apply run_wp i hready
    rw [wp_of_error h]
    exact ⟨rfl, rfl⟩
  unfold Wp at hwp
  cases hrun : i.run hc c vm with
  | ok a s =>
      rw [hrun] at hwp
      exact hwp.elim
  | error e' s =>
      rw [hrun] at hwp
      rw [hwp.1, hwp.2]

/-- Where the access succeeds, the block finishes the instruction. -/
theorem run_of_ok {i : MemoryInstr} (hready : Ready hc c) {f : Hart → Hart} {t : Vm}
    (h : i.access vm = .ok f t) :
    ∃ c', i.run hc c vm = .ok (.fallThrough, c') { t with hart := f t.hart } := by
  have hwp : Wp (i.run hc c)
      (fun r s => r.1 = .fallThrough ∧ s = { t with hart := f t.hart }) (fun _ _ => False) vm := by
    apply run_wp i hready
    rw [wp_of_ok h]
    exact fun _ => ⟨rfl, rfl⟩
  unfold Wp at hwp
  cases hrun : i.run hc c vm with
  | ok r s =>
      rw [hrun] at hwp
      obtain ⟨⟨e, c'⟩, rfl⟩ : ∃ r', r' = r := ⟨r, rfl⟩
      obtain ⟨rfl, rfl⟩ := hwp
      exact ⟨c', rfl⟩
  | error e s =>
      rw [hrun] at hwp
      exact hwp.elim

/-- A block traps exactly when its access does. -/
theorem run_trap_iff {i : MemoryInstr} (hready : Ready hc c) {t : Vm} :
    i.run hc c vm = .error .trap t ↔ i.access vm = .error .trap t := by
  constructor
  · intro hrun
    cases haccess : i.access vm with
    | ok f s =>
        obtain ⟨c', hok⟩ := run_of_ok hready haccess
        rw [hok] at hrun
        cases hrun
    | error e s =>
        rw [run_of_error hready haccess] at hrun
        cases hrun
        rfl
  · exact run_of_error hready

end Run

end MemoryInstr

/-! ## Faults -/

/-- Not the address of a word. -/
def Misaligned (va : Word) : Prop :=
  va &&& 0x3 ≠ 0

instance (va : Word) : Decidable (Misaligned va) :=
  inferInstanceAs (Decidable (va &&& 0x3 ≠ 0))

/-- A data access to `va` finds no translation. -/
structure DataFault (vm : Vm) (va : Word) : Prop where
  pagingOn : vm.hart.pagingOn = true
  missed : vm.hart.dtlb.vaToTlbEntry va = none
  walk : ∃ rc, walkPageTable vm va vm.hart.dtlb = some (rc, vm.hart.dtlb) ∧ rc < 0

/-- The walk of a fault is the one that finds no leaf. -/
theorem walkPageTable_fails_iff {vm : Vm} {va : Word} {tlb : Tlb} :
    (∃ rc, walkPageTable vm va tlb = some (rc, tlb) ∧ rc < 0) ↔
      ∃ rc, walkLeaf vm va = some (.error rc) := by
  rw [walkPageTable_eq]
  rcases hleaf : walkLeaf vm va with _ | (rc | entry)
  · simp
  · simpa [fill] using walkLeaf_error hleaf
  · simp only [Option.map_some, fill, Option.some.injEq, Prod.mk.injEq, reduceCtorEq, exists_false,
      iff_false]
    rintro ⟨rc, ⟨rfl, -⟩, hneg⟩
    omega

theorem target_eq_pageFault {vm : Vm} {va : Word} :
    target vm va = .pageFault ↔ DataFault vm va := by
  unfold target
  constructor
  · intro h
    split at h
    · rename_i hpaging
      split at h
      · cases h
      · rename_i hmissed
        apply DataFault.mk hpaging hmissed
        rw [walkPageTable_fails_iff]
        rcases hleaf : walkLeaf vm va with _ | (rc | entry)
        · rw [hleaf] at h
          cases h
        · exact ⟨rc, rfl⟩
        · rw [hleaf] at h
          cases h
    · split at h <;> cases h
  · intro h
    obtain ⟨rc, hleaf⟩ := walkPageTable_fails_iff.mp h.walk
    rw [if_pos h.pagingOn, h.missed, hleaf]
    rfl

section Trap

variable {vm t : Vm} {va : Word}

/-- A callback's own failures are no traps. -/
theorem ne_trap_of_noTrap {α : Type} {m : VmM α} {Q : α → Vm → Prop}
    (h : Wp m Q (NoTrap vm) vm) : m vm ≠ .error .trap t := by
  intro htrap
  rw [wp_of_error htrap] at h
  exact h.1 rfl

theorem vmread_trap_iff (size : AccessSize) :
    vmread va size vm = .error .trap t ↔
      DataFault vm va ∧ t = excepted vm EXCEPTION_LOAD_PAGE_FAULT va := by
  rw [vmread_apply, ← target_eq_pageFault]
  cases htarget : target vm va with
  | region pmr pa =>
      simp only [reduceCtorEq, false_and, iff_false]
      exact ne_trap_of_noTrap (pmrRead_frame pmr pa size _)
  | pageFault => simp [eq_comm]
  | exit => simp

theorem vmwrite_trap_iff (size : AccessSize) (value : DWord) :
    vmwrite va size value vm = .error .trap t ↔
      DataFault vm va ∧ t = excepted vm EXCEPTION_STORE_PAGE_FAULT va := by
  rw [vmwrite_apply, ← target_eq_pageFault]
  cases htarget : target vm va with
  | region pmr pa =>
      simp only [reduceCtorEq, false_and, iff_false]
      exact ne_trap_of_noTrap (pmrWrite_frame pmr pa size value _)
  | pageFault => simp [eq_comm]
  | exit => simp

theorem mmuRead32Aligned_of_misaligned (h : Misaligned va) :
    mmuRead32Aligned va vm = .error .trap (excepted vm EXCEPTION_LOAD_ADDRESS_MISALIGN va) := by
  have hbranch : mmuRead32Aligned va = raiseExceptionWithTvalue EXCEPTION_LOAD_ADDRESS_MISALIGN va :=
    if_pos h
  rw [hbranch, raiseExceptionWithTvalue_apply va vm (by decide)]

theorem mmuRead32Aligned_of_aligned (h : ¬Misaligned va) :
    mmuRead32Aligned va = vmread va .b4 >>= fun value => pure (value.setWidth 32) :=
  if_neg h

theorem mmuWrite32Aligned_of_misaligned {value : Word} (h : Misaligned va) :
    mmuWrite32Aligned va value vm =
      .error .trap (excepted vm EXCEPTION_LOAD_ADDRESS_MISALIGN va) := by
  have hbranch : mmuWrite32Aligned va value =
      raiseExceptionWithTvalue EXCEPTION_LOAD_ADDRESS_MISALIGN va := if_pos h
  rw [hbranch, raiseExceptionWithTvalue_apply va vm (by decide)]

theorem mmuWrite32Aligned_of_aligned {value : Word} (h : ¬Misaligned va) :
    mmuWrite32Aligned va value = vmwrite va .b4 (value.setWidth 64) :=
  if_neg h

theorem mmuRead32Aligned_trap_iff :
    mmuRead32Aligned va vm = .error .trap t ↔
      Misaligned va ∧ t = excepted vm EXCEPTION_LOAD_ADDRESS_MISALIGN va ∨
        ¬Misaligned va ∧ DataFault vm va ∧ t = excepted vm EXCEPTION_LOAD_PAGE_FAULT va := by
  by_cases hmis : Misaligned va
  · rw [mmuRead32Aligned_of_misaligned hmis]
    simp [hmis, eq_comm]
  · rw [mmuRead32Aligned_of_aligned hmis, ← vmread_trap_iff .b4]
    simp only [hmis, not_false_eq_true, false_and, true_and, false_or]
    cases hread : vmread va .b4 vm with
    | ok value s =>
        rw [bind_apply_ok hread]
        simp
    | error e s =>
        rw [bind_apply_error hread]
        simp

theorem mmuWrite32Aligned_trap_iff {value : Word} :
    mmuWrite32Aligned va value vm = .error .trap t ↔
      Misaligned va ∧ t = excepted vm EXCEPTION_LOAD_ADDRESS_MISALIGN va ∨
        ¬Misaligned va ∧ DataFault vm va ∧ t = excepted vm EXCEPTION_STORE_PAGE_FAULT va := by
  by_cases hmis : Misaligned va
  · rw [mmuWrite32Aligned_of_misaligned hmis]
    simp [hmis, eq_comm]
  · rw [mmuWrite32Aligned_of_aligned hmis, vmwrite_trap_iff]
    simp [hmis]

/-- No lookup of `va` has to walk. -/
def Hit (vm : Vm) (va : Word) : Prop :=
  vm.hart.pagingOn = true → vm.hart.dtlb.vaToTlbEntry va ≠ none

theorem touched_hit {pmr : PmRegion} {pa : Word} (h : target vm va = .region pmr pa) :
    Hit (touched vm va) va := by
  intro hpaging
  rw [touched_pagingOn] at hpaging
  obtain ⟨entry, hlook, -⟩ := touched_lookup h hpaging
  rw [hlook]
  simp

/-- A load that succeeds leaves its translation behind. -/
theorem vmread_hit {size : AccessSize} {value : DWord} (h : vmread va size vm = .ok value t) :
    Hit t va := by
  rw [vmread_apply] at h
  cases htarget : target vm va with
  | region pmr pa =>
      rw [htarget] at h
      have hread : pmr.pmrRead pa size (touched vm va) = .ok value t := h
      have hframe := pmrRead_frame pmr pa size (touched vm va)
      rw [wp_of_ok hread, ReadFrame] at hframe
      have hhit := touched_hit htarget
      unfold Hit at hhit ⊢
      rw [hframe]
      exact hhit
  | pageFault =>
      rw [htarget] at h
      cases h
  | exit =>
      rw [htarget] at h
      cases h

end Trap

section Reservations

variable {vm : Vm} {rs1 rs2 rd : RegIndex}

theorem lrSlowpath_apply (vm : Vm) (rs1 rs2 rd : RegIndex) :
    lrSlowpath rs1 rs2 rd vm =
      (mmuRead32Aligned (vm.hart.registers rs1) >>= fun loaded => do
        regWrite rd loaded
        modify fun s => s.reserve (vm.hart.registers rs1)) vm :=
  rfl

/-- An `sc.w` that finds no slot only reports it. -/
theorem scSlowpath_of_none (hnone : vm.matchingReservation (vm.hart.registers rs1) = none) :
    scSlowpath rs1 rs2 rd vm = .ok () { vm with hart := vm.hart.setReg rd 0x1 } := by
  unfold scSlowpath
  rw [bind_apply_ok (get_apply vm), hnone]
  rfl

theorem scSlowpath_of_some {idx : Fin MAX_RESERVATION_ITEMS}
    (hsome : vm.matchingReservation (vm.hart.registers rs1) = some idx) :
    scSlowpath rs1 rs2 rd vm =
      (mmuWrite32Aligned (vm.hart.registers rs1) (vm.hart.registers rs2) >>= fun _ =>
        modify fun s => s.clearReservation idx) { vm with hart := vm.hart.setReg rd 0x0 } := by
  unfold scSlowpath
  rw [bind_apply_ok (get_apply vm), hsome]
  rfl

end Reservations

namespace MemoryInstr

variable {vm t : Vm} {rd rs1 rs2 : RegIndex} {offset : Word}

/-- What follows the part of an access that can trap does not matter to the trap. -/
theorem bind_trap_iff {α β : Type} {m : VmM α} {f : α → VmM β}
    (hf : ∀ a s, m vm = .ok a s → f a s ≠ .error .trap t) :
    (m >>= f) vm = .error .trap t ↔ m vm = .error .trap t := by
  cases hm : m vm with
  | ok a s =>
      rw [bind_apply_ok hm]
      simpa using hf a s hm
  | error e s =>
      rw [bind_apply_error hm]
      simp

theorem load_trap_iff {l : LoadOp} :
    (load l rd rs1 offset).access vm = .error .trap t ↔
      DataFault vm (vm.hart.registers rs1 + offset) ∧
        t = excepted vm EXCEPTION_LOAD_PAGE_FAULT (vm.hart.registers rs1 + offset) := by
  have haccess : (load l rd rs1 offset).access vm =
      (vmread (vm.hart.registers rs1 + offset) l.size >>= fun value =>
        pure fun h => retired h rd (l.widen value)) vm := rfl
  rw [haccess, bind_trap_iff (by simp), vmread_trap_iff]

theorem store_trap_iff {st : StoreOp} :
    (store st rs1 rs2 offset).access vm = .error .trap t ↔
      DataFault vm (vm.hart.registers rs1 + offset) ∧
        t = excepted vm EXCEPTION_STORE_PAGE_FAULT (vm.hart.registers rs1 + offset) := by
  have haccess : (store st rs1 rs2 offset).access vm =
      (vmwrite (vm.hart.registers rs1 + offset) st.size (st.narrow (vm.hart.registers rs2)) >>=
        fun _ => pure proceeded) vm := rfl
  rw [haccess, bind_trap_iff (by simp), vmwrite_trap_iff]

theorem lr_trap_iff :
    (lr rd rs1 rs2).access vm = .error .trap t ↔
      mmuRead32Aligned (vm.hart.registers rs1) vm = .error .trap t := by
  have haccess : (lr rd rs1 rs2).access vm =
      (lrSlowpath rs1 rs2 rd >>= fun _ => pure fun h => proceeded (h.setReg 0 0)) vm := rfl
  rw [haccess, bind_trap_iff (by simp), lrSlowpath_apply, bind_trap_iff]
  intro loaded s _ htrap
  cases htrap

/-- A conditional store traps only where it holds a reservation, after `rd` is written. -/
theorem sc_trap_iff :
    (sc rd rs1 rs2).access vm = .error .trap t ↔
      (vm.matchingReservation (vm.hart.registers rs1)).isSome ∧
        mmuWrite32Aligned (vm.hart.registers rs1) (vm.hart.registers rs2)
          { vm with hart := vm.hart.setReg rd 0x0 } = .error .trap t := by
  have haccess : (sc rd rs1 rs2).access vm =
      (scSlowpath rs1 rs2 rd >>= fun _ => pure fun h => proceeded (h.setReg 0 0)) vm := rfl
  rw [haccess, bind_trap_iff (by simp)]
  cases hslot : vm.matchingReservation (vm.hart.registers rs1) with
  | none =>
      simp only [scSlowpath_of_none hslot, Option.isSome_none, Bool.false_eq_true, false_and,
        iff_false]
      intro htrap
      cases htrap
  | some idx =>
      rw [scSlowpath_of_some hslot, bind_trap_iff (by simp)]
      simp

/-- The store of a read-modify-write goes where its load went. -/
theorem amo_trap_iff {op : RmwOp} :
    (amo op rd rs1 rs2).access vm = .error .trap t ↔
      mmuRead32Aligned (vm.hart.registers rs1) vm = .error .trap t := by
  have haccess : (amo op rd rs1 rs2).access vm =
      (amoSlowpath (fun rd rs2 => op.combine rd rs2) rs1 rs2 rd >>= fun _ =>
        pure fun h => proceeded (h.setReg 0 0)) vm := rfl
  have hslow : amoSlowpath (fun rd rs2 => op.combine rd rs2) rs1 rs2 rd vm =
      (mmuRead32Aligned (vm.hart.registers rs1) >>= fun loaded => do
        regWrite rd loaded
        let s ← get
        mmuWrite32Aligned (vm.hart.registers rs1)
          (op.combine (s.hart.registers rd) (vm.hart.registers rs2))) vm := rfl
  rw [haccess, bind_trap_iff (by simp), hslow, bind_trap_iff]
  intro loaded s hload htrap
  have haligned : ¬Misaligned (vm.hart.registers rs1) := by
    intro hmis
    rw [mmuRead32Aligned_of_misaligned hmis] at hload
    cases hload
  have hhit : Hit s (vm.hart.registers rs1) := by
    rw [mmuRead32Aligned_of_aligned haligned] at hload
    cases hread : vmread (vm.hart.registers rs1) .b4 vm with
    | ok value u =>
        rw [bind_apply_ok hread] at hload
        cases hload
        exact vmread_hit hread
    | error e u =>
        rw [bind_apply_error hread] at hload
        cases hload
  have hstore : mmuWrite32Aligned (vm.hart.registers rs1)
      (op.combine ((s.hart.setReg rd loaded).registers rd) (vm.hart.registers rs2))
      { s with hart := s.hart.setReg rd loaded } = .error .trap t := htrap
  rw [mmuWrite32Aligned_trap_iff] at hstore
  rcases hstore with ⟨hmis, -⟩ | ⟨-, hfault, -⟩
  · exact haligned hmis
  · exact hhit hfault.pagingOn hfault.missed

end MemoryInstr

end Zelda.Proofs.MemoryInstructions
