import Zelda.Proofs.Frames
/-!
# Data accesses

Where a data access goes is a function of the state it starts from.  The
access itself fills at most one slot of the data TLB and then makes one call
of a region callback.
-/

namespace Zelda.Proofs.DataAccess

open Zelda.Vmm
open Zelda.Lib.Effect
open Zelda.Lib.Bytes
open Zelda.Proofs.Frames
open Zelda.Proofs.PageWalk

/-! ## Where an access goes -/

/-- What the translation of a data address comes to. -/
inductive Target
  /-- The callback of `pmr` is called with `pa`. -/
  | region (pmr : PmRegion) (pa : Word)
  | pageFault
  | exit
  deriving DecidableEq, Repr

/-- The outcome of a walk as a target. -/
def leafTarget (va : Word) : Option (Except Int TlbEntry) → Target
  | none => .exit
  | some (.error _) => .pageFault
  | some (.ok entry) => .region entry.pmr (entry.physical va)

def target (vm : Vm) (va : Word) : Target :=
  if vm.hart.pagingOn then
    match vm.hart.dtlb.vaToTlbEntry va with
    | some entry => .region entry.pmr (entry.physical va)
    | none => leafTarget va (walkLeaf vm va)
  else
    match searchPmRegionCallback vm.pmrOps va with
    | some (some pmr) => .region pmr va
    | _ => .exit

/-- The machine with the leaf of `va` in its data TLB, if the lookup has to walk for it. -/
def touched (vm : Vm) (va : Word) : Vm :=
  if vm.hart.pagingOn then
    match vm.hart.dtlb.vaToTlbEntry va, walkLeaf vm va with
    | none, some (.ok entry) => cached vm .dtlb va entry
    | _, _ => vm
  else
    vm

theorem exists_touched_eq (vm : Vm) (va : Word) :
    ∃ dtlb, touched vm va = { vm with hart := { vm.hart with dtlb := dtlb } } := by
  unfold touched
  split
  · split
    · exact ⟨_, rfl⟩
    · exact ⟨vm.hart.dtlb, rfl⟩
  · exact ⟨vm.hart.dtlb, rfl⟩

/-- Filling the data TLB changes nothing else. -/
theorem touched_field {β : Type} (f : Vm → β) {vm : Vm}
    (hf : ∀ dtlb, f { vm with hart := { vm.hart with dtlb := dtlb } } = f vm) (va : Word) :
    f (touched vm va) = f vm := by
  obtain ⟨dtlb, h⟩ := exists_touched_eq vm va
  rw [h, hf]

@[simp] theorem touched_mainMem (vm : Vm) (va : Word) : (touched vm va).mainMem = vm.mainMem :=
  touched_field Vm.mainMem (fun _ => rfl) va

@[simp] theorem touched_pmrOps (vm : Vm) (va : Word) : (touched vm va).pmrOps = vm.pmrOps :=
  touched_field Vm.pmrOps (fun _ => rfl) va

@[simp] theorem touched_csrBlob (vm : Vm) (va : Word) :
    (touched vm va).hart.csrBlob = vm.hart.csrBlob :=
  touched_field (fun t => t.hart.csrBlob) (fun _ => rfl) va

@[simp] theorem touched_pagingOn (vm : Vm) (va : Word) :
    (touched vm va).hart.pagingOn = vm.hart.pagingOn :=
  touched_field (fun t => t.hart.pagingOn) (fun _ => rfl) va

/-- Everything a translated access can do before its callback runs. -/
theorem translated_apply {α : Type} {fault : Nat} (hfault : fault < 16) (va : Word)
    (k : TlbEntry → VmM α) {vm : Vm} (hpaging : vm.hart.pagingOn = true) :
    (translateAddress .dtlb fault va >>= k) vm =
      match vm.hart.dtlb.vaToTlbEntry va with
      | some entry => k entry vm
      | none =>
          match walkLeaf vm va with
          | none => .error .exit vm
          | some (.ok entry) => k entry (touched vm va)
          | some (.error _) => .error .trap (excepted vm fault va) := by
  have htranslate := translateAddress_apply .dtlb hfault va vm
  cases hlook : vm.hart.dtlb.vaToTlbEntry va with
  | some entry =>
      simp only [Hart.tlb, hlook] at htranslate
      exact bind_apply_ok htranslate
  | none =>
      rcases hleaf : walkLeaf vm va with _ | (rc | entry)
      · simp only [Hart.tlb, hlook, hleaf] at htranslate
        exact bind_apply_error htranslate
      · simp only [Hart.tlb, hlook, hleaf] at htranslate
        exact bind_apply_error htranslate
      · simp only [Hart.tlb, hlook, hleaf] at htranslate
        have htouched : touched vm va = cached vm .dtlb va entry := by
          unfold touched
          rw [if_pos hpaging, hlook, hleaf]
        rw [bind_apply_ok htranslate, htouched]

theorem touched_of_hit {vm : Vm} {va : Word} {entry : TlbEntry}
    (hlook : vm.hart.dtlb.vaToTlbEntry va = some entry) : touched vm va = vm := by
  unfold touched
  rw [hlook]
  split
  · rfl
  · rfl

/-- After the access its translation is in the TLB, and is the one it used. -/
theorem touched_lookup {vm : Vm} {va : Word} {pmr : PmRegion} {pa : Word} (h : target vm va = .region pmr pa)
    (hpaging : vm.hart.pagingOn = true) :
    ∃ entry, (touched vm va).hart.dtlb.vaToTlbEntry va = some entry ∧ entry.pmr = pmr ∧
      entry.physical va = pa := by
  unfold target at h
  rw [if_pos hpaging] at h
  cases hlook : vm.hart.dtlb.vaToTlbEntry va with
  | some entry =>
      simp only [hlook, Target.region.injEq] at h
      rw [touched_of_hit hlook]
      exact ⟨entry, hlook, h⟩
  | none =>
      rcases hleaf : walkLeaf vm va with _ | (rc | entry)
      · simp [hlook, hleaf, leafTarget] at h
      · simp [hlook, hleaf, leafTarget] at h
      · simp only [hlook, hleaf, leafTarget, Target.region.injEq] at h
        unfold touched
        rw [if_pos hpaging, hlook, hleaf]
        exact ⟨entry, vaToTlbEntry_install hlook (walkLeaf_ok hleaf).1, h⟩

/-- A second access to the same address goes where the first went. -/
theorem target_touched {vm : Vm} {va : Word} {pmr : PmRegion} {pa : Word} (h : target vm va = .region pmr pa) :
    target (touched vm va) va = .region pmr pa := by
  by_cases hpaging : vm.hart.pagingOn = true
  · obtain ⟨entry, hlook, rfl, rfl⟩ := touched_lookup h hpaging
    unfold target
    rw [touched_pagingOn, if_pos hpaging, hlook]
  · have htouched : touched vm va = vm := if_neg hpaging
    rw [htouched, h]

theorem vmread_apply (vm : Vm) (va : Word) (size : AccessSize) :
    vmread va size vm =
      match target vm va with
      | .region pmr pa => pmr.pmrRead pa size (touched vm va)
      | .pageFault => .error .trap (excepted vm EXCEPTION_LOAD_PAGE_FAULT va)
      | .exit => .error .exit vm := by
  unfold vmread target
  rw [bind_apply_ok (get_apply vm)]
  by_cases hpaging : vm.hart.pagingOn = true
  · rw [if_pos hpaging, if_pos hpaging, translated_apply (by decide) va _ hpaging]
    cases hlook : vm.hart.dtlb.vaToTlbEntry va with
    | some entry => rw [touched_of_hit hlook]
    | none => rcases walkLeaf vm va with _ | (rc | entry) <;> rfl
  · rw [if_neg hpaging, if_neg hpaging]
    have htouched : touched vm va = vm := if_neg hpaging
    unfold directRead findPmRegion
    rw [htouched, bind_apply, bind_apply_ok (get_apply vm)]
    rcases searchPmRegionCallback vm.pmrOps va with _ | _ | pmr <;> rfl

theorem vmwrite_apply (vm : Vm) (va : Word) (size : AccessSize) (value : DWord) :
    vmwrite va size value vm =
      match target vm va with
      | .region pmr pa => pmr.pmrWrite pa size value (touched vm va)
      | .pageFault => .error .trap (excepted vm EXCEPTION_STORE_PAGE_FAULT va)
      | .exit => .error .exit vm := by
  unfold vmwrite target
  rw [bind_apply_ok (get_apply vm)]
  by_cases hpaging : vm.hart.pagingOn = true
  · rw [if_pos hpaging, if_pos hpaging, translated_apply (by decide) va _ hpaging]
    cases hlook : vm.hart.dtlb.vaToTlbEntry va with
    | some entry => rw [touched_of_hit hlook]
    | none => rcases walkLeaf vm va with _ | (rc | entry) <;> rfl
  · rw [if_neg hpaging, if_neg hpaging]
    have htouched : touched vm va = vm := if_neg hpaging
    unfold directWrite findPmRegion
    rw [htouched, bind_apply, bind_apply_ok (get_apply vm)]
    rcases searchPmRegionCallback vm.pmrOps va with _ | _ | pmr <;> rfl

/-! ## What a target depends on -/

/-- Two machines that translate every address alike. -/
structure SameTranslation (s t : Vm) : Prop where
  pagingOn : t.hart.pagingOn = s.hart.pagingOn
  dtlb : t.hart.dtlb = s.hart.dtlb
  leaf : ∀ va, walkLeaf t va = walkLeaf s va
  pmrOps : t.pmrOps = s.pmrOps

theorem target_of_sameTranslation {s t : Vm} (h : SameTranslation s t) (va : Word) :
    target t va = target s va := by
  unfold target
  rw [h.pagingOn, h.dtlb, h.leaf, h.pmrOps]

theorem touched_of_sameTranslation {s t : Vm} (h : SameTranslation s t) (va : Word) :
    (touched t va).hart.dtlb = (touched s va).hart.dtlb := by
  unfold touched
  rw [h.pagingOn, h.dtlb, h.leaf]
  split
  · split
    · show t.hart.dtlb.install (leafSlot t.hart.dtlb va _) _ =
        s.hart.dtlb.install (leafSlot s.hart.dtlb va _) _
      rw [h.dtlb]
    · exact h.dtlb
  · exact h.dtlb

end Zelda.Proofs.DataAccess
