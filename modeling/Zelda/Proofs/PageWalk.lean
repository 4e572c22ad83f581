import Zelda.Vmm.Mmu
/-!
# The page walk

What a walk does is decided by the page tables alone: either it stops with an
error code and leaves the TLB as it was, or it reaches a leaf and writes one
entry.  Two addresses of one page reach the same leaf.
-/

namespace Zelda.Proofs.PageWalk

open Zelda.Vmm
open Zelda.Lib.Bytes
open Zelda.Lib.BinarySearch

/-! ## The region of an address -/

theorem pmRegionOperationCompare_eq_zero {pa : Word} {ops : PmrOps} {pmr : PmRegion}
    (h : pmRegionOperationCompare { addrLow := pa, addrHigh := pa + 1, ops := ops } pmr = some 0) :
    pmr.addrLow ≤ pa ∧ pa < pmr.addrHigh := by
  unfold pmRegionOperationCompare at h
  split_ifs at h with hwrap hregion hbelow habove hinside
  · cases h
  · cases h
  · -- `pa + 1` did not wrap, so `addrLow < pa + 1` puts `pa` above it
    have hone : (1 : Word).toNat = 1 := rfl
    simp only [BitVec.le_def, BitVec.lt_def, BitVec.toNat_add, hone] at *
    omega

/-- A region that the lookup returns is in the table and contains the address. -/
theorem searchPmRegionCallback_sound {pmrOps : List PmRegion} {pa : Word} {pmr : PmRegion}
    (h : searchPmRegionCallback pmrOps pa = some (some pmr)) :
    pmr ∈ pmrOps ∧ pmr.addrLow ≤ pa ∧ pa < pmr.addrHigh := by
  obtain ⟨found, hsearch, hfound⟩ := Option.map_eq_some_iff.mp h
  obtain ⟨i, rfl, hi⟩ := Option.bind_eq_some_iff.mp hfound
  obtain ⟨-, hzero⟩ := search_sound hsearch
  rw [hi] at hzero
  exact ⟨List.mem_of_getElem? hi, pmRegionOperationCompare_eq_zero hzero⟩

/-- Regions in the order of their addresses, none of them overlapping. -/
structure SortedRegions (pmrOps : List PmRegion) : Prop where
  nonempty : ∀ pmr ∈ pmrOps, pmr.addrLow < pmr.addrHigh
  ordered : pmrOps.Pairwise fun pmr pmr' => pmr.addrHigh ≤ pmr'.addrLow

/-- How the one-byte target of a lookup compares with a region. -/
def regionSign (pa : Word) (pmr : PmRegion) : Int :=
  if pa < pmr.addrLow then -1 else if pmr.addrHigh ≤ pa then 1 else 0

theorem pmRegionOperationCompare_eq_sign {pa : Word} {ops : PmrOps} {pmr : PmRegion}
    (hpa : pa.toNat + 1 < 2 ^ 32) (hpmr : pmr.addrLow < pmr.addrHigh) :
    pmRegionOperationCompare { addrLow := pa, addrHigh := pa + 1, ops := ops } pmr =
      some (regionSign pa pmr) := by
  have hone : (pa + 1).toNat = pa.toNat + 1 := by
    rw [BitVec.toNat_add]
    exact Nat.mod_eq_of_lt hpa
  unfold pmRegionOperationCompare regionSign
  simp only [BitVec.le_def, BitVec.lt_def, hone] at hpmr ⊢
  rw [if_neg (by omega), if_neg (by omega)]
  by_cases hbelow : pa.toNat < pmr.addrLow.toNat
  · rw [if_pos (by omega), if_pos hbelow]
  · rw [if_neg (by omega), if_neg hbelow]
    by_cases habove : pmr.addrHigh.toNat ≤ pa.toNat
    · rw [if_pos habove, if_pos habove]
    · rw [if_neg habove, if_neg habove, if_pos (by omega)]

/-- In a sorted table the lookup finds the region an address lies in. -/
theorem searchPmRegionCallback_complete {pmrOps : List PmRegion} {pa : Word} {pmr : PmRegion}
    (hsorted : SortedRegions pmrOps) (hmem : pmr ∈ pmrOps) (hlow : pmr.addrLow ≤ pa)
    (hhigh : pa < pmr.addrHigh) : searchPmRegionCallback pmrOps pa = some (some pmr) := by
  obtain ⟨i, hi, rfl⟩ := List.getElem_of_mem hmem
  have hwrap : pa.toNat + 1 < 2 ^ 32 := by
    have := pmrOps[i].addrHigh.isLt
    rw [BitVec.lt_def] at hhigh
    omega
  let signs : Nat → Int := fun k => (pmrOps[k]?.map (regionSign pa)).getD 0
  have hsigns : ∀ k (hk : k < pmrOps.length), signs k = regionSign pa pmrOps[k] := by
    intro k hk
    show (pmrOps[k]?.map (regionSign pa)).getD 0 = _
    rw [List.getElem?_eq_getElem hk]
    rfl
  have hfound : search (fun k => pmrOps[k]?.bind
      (pmRegionOperationCompare { addrLow := pa, addrHigh := pa + 1, ops := .ram })) pmrOps.length =
      some (some i) := by
    refine search_complete (d := signs) ?_ ?_ hi ?_
    · intro k hk
      rw [List.getElem?_eq_getElem hk, hsigns k hk]
      exact pmRegionOperationCompare_eq_sign hwrap (hsorted.nonempty _ (List.getElem_mem hk))
    · -- a region that does not end before the address ends before every later one
      intro j k hjk hk hj
      rw [hsigns j (by omega)] at hj
      rw [hsigns k hk]
      have horder := List.pairwise_iff_getElem.mp hsorted.ordered j k (by omega) hk hjk
      have hnonempty := hsorted.nonempty _ (List.getElem_mem (show j < pmrOps.length by omega))
      unfold regionSign at hj ⊢
      simp only [BitVec.le_def, BitVec.lt_def] at hj horder hnonempty ⊢
      split_ifs at hj with hbelow habove
      · rw [if_pos (by omega)]
        decide
      · omega
      · rw [if_pos (by omega)]
        decide
    · rw [hsigns i hi]
      unfold regionSign
      rw [if_neg (BitVec.not_lt.mpr hlow), if_neg (BitVec.not_le.mpr hhigh)]
  unfold searchPmRegionCallback
  simp only
  rw [hfound]
  show some pmrOps[i]? = _
  rw [List.getElem?_eq_getElem hi]

/-! ## The leaf of an address -/

/-- Where the walker finds the root entry of an address. -/
def level1Address (satp va : Word) : Word :=
  satp <<< 12 + ((va >>> 22) &&& 0x3ff) * 4

/-- Where the walker finds the second-level entry, below a root entry. -/
def level2Address (level1Pte va : Word) : Word :=
  (level1Pte >>> 10) <<< 12 + ((va >>> 12) &&& 0x3ff) * 4

/-- The entry for a leaf page of `va`, if its frame is backed by a region. -/
def leafAt (vm : Vm) (va mask pa : Word) : Option (Except Int TlbEntry) :=
  (searchPmRegionCallback vm.pmrOps pa).map fun
    | none => .error (-4)
    | some pmr => .ok
        { vaTag := va &&& mask
          paTag := pa
          pageMask := mask
          entryValid := true
          pmr := pmr
          ghostSatp := vm.hart.csrBlob CSR_ADDRESS_SATP }

/-- The outcome of a walk without the TLB: an error code or the entry to install. -/
def walkLeaf (vm : Vm) (va : Word) : Option (Except Int TlbEntry) :=
  let satp := vm.hart.csrBlob CSR_ADDRESS_SATP
  if satp &&& 0x80000000 = 0 then none
  else
    match pteAt vm (level1Address satp va) with
    | none => none
    | some none => some (.error (-3))
    | some (some level1Pte) =>
        if ¬pteValid level1Pte then some (.error (-1))
        else if pteIsLeaf level1Pte then
          leafAt vm va PAGE_MASK_4M ((level1Pte >>> 10) <<< 12 &&& PAGE_MASK_4M)
        else
          match pteAt vm (level2Address level1Pte va) with
          | none => none
          | some none => some (.error (-3))
          | some (some level2Pte) =>
              if ¬pteValid level2Pte then some (.error (-2))
              else leafAt vm va PAGE_MASK_4K ((level2Pte >>> 10) <<< 12 &&& PAGE_MASK_4K)

/-- The slot a leaf of this size is cached in. -/
def leafSlot (tlb : Tlb) (va mask : Word) : Word :=
  if mask = PAGE_MASK_4M then tlb.slot4M va else tlb.slot4K va

/-- The TLB after a walk with the given outcome. -/
def fill (tlb : Tlb) (va : Word) : Except Int TlbEntry → Int × Tlb
  | .error rc => (rc, tlb)
  | .ok entry => (0, tlb.install (leafSlot tlb va entry.pageMask) entry)

theorem walkPageTable_eq (vm : Vm) (va : Word) (tlb : Tlb) :
    walkPageTable vm va tlb = (walkLeaf vm va).map (fill tlb va) := by
  unfold walkPageTable walkLeaf level1Address level2Address
  by_cases hsatp : vm.hart.csrBlob CSR_ADDRESS_SATP &&& 0x80000000 = 0
  · simp only [hsatp, if_true, Option.map_none]
  simp only [hsatp, if_false]
  rcases pteAt vm _ with _ | _ | level1Pte
  · rfl
  · rfl
  by_cases hv : pteValid level1Pte = true
  · by_cases hl : pteIsLeaf level1Pte = true
    · simp only [hv, hl, not_true_eq_false, if_false, if_true, leafAt]
      rcases searchPmRegionCallback vm.pmrOps _ with _ | _ | pmr <;> rfl
    · simp only [hv, hl, not_true_eq_false, Bool.false_eq_true, if_false, leafAt]
      rcases pteAt vm _ with _ | _ | level2Pte
      · rfl
      · rfl
      by_cases hv2 : pteValid level2Pte = true
      · simp only [hv2, not_true_eq_false, if_false]
        rcases searchPmRegionCallback vm.pmrOps _ with _ | _ | pmr <;> rfl
      · simp only [hv2]
        rfl
  · simp only [hv]
    rfl

/-! ## Pages -/

theorem and_highMask_ushiftRight {va mask : Word} {k : Nat} (hk : k ≤ 32)
    (hm : mask.toNat = 2 ^ k * (2 ^ (32 - k) - 1)) : (va &&& mask) >>> k = va >>> k := by
  apply BitVec.eq_of_toNat_eq
  have hlt : va.toNat / 2 ^ k < 2 ^ (32 - k) := by
    rw [Nat.div_lt_iff_lt_mul (Nat.two_pow_pos k), ← Nat.pow_add, Nat.sub_add_cancel hk]
    exact va.isLt
  have hshift : (2 ^ k * (2 ^ (32 - k) - 1)) >>> k = 2 ^ (32 - k) - 1 := by
    rw [Nat.shiftRight_eq_div_pow, Nat.mul_div_cancel_left _ (Nat.two_pow_pos k)]
  rw [BitVec.toNat_ushiftRight, BitVec.toNat_and, Nat.shiftRight_and_distrib, hm, hshift,
    Nat.and_two_pow_sub_one_eq_mod, BitVec.toNat_ushiftRight, Nat.shiftRight_eq_div_pow,
    Nat.mod_eq_of_lt hlt]

theorem ushiftRight12_eq_of_page4K {va va' : Word}
    (h : va &&& PAGE_MASK_4K = va' &&& PAGE_MASK_4K) : va >>> 12 = va' >>> 12 := by
  have hmask : ∀ x : Word, (x &&& PAGE_MASK_4K) >>> 12 = x >>> 12 := fun x =>
    and_highMask_ushiftRight (by decide) (by decide)
  rw [← hmask va, h, hmask va']

theorem ushiftRight22_eq_of_page4M {va va' : Word}
    (h : va &&& PAGE_MASK_4M = va' &&& PAGE_MASK_4M) : va >>> 22 = va' >>> 22 := by
  have hmask : ∀ x : Word, (x &&& PAGE_MASK_4M) >>> 22 = x >>> 22 := fun x =>
    and_highMask_ushiftRight (by decide) (by decide)
  rw [← hmask va, h, hmask va']

theorem ushiftRight22_eq_of_page4K {va va' : Word}
    (h : va &&& PAGE_MASK_4K = va' &&& PAGE_MASK_4K) : va >>> 22 = va' >>> 22 := by
  have hsplit : ∀ x : Word, x >>> 22 = x >>> 12 >>> 10 := fun x =>
    BitVec.shiftRight_add x 12 10
  rw [hsplit va, hsplit va', ushiftRight12_eq_of_page4K h]

/-! ## Walks that reach a leaf -/

theorem leafAt_eq_ok {vm : Vm} {va mask pa : Word} {entry : TlbEntry} :
    leafAt vm va mask pa = some (.ok entry) ↔
      ∃ pmr, searchPmRegionCallback vm.pmrOps pa = some (some pmr) ∧
        entry =
          { vaTag := va &&& mask
            paTag := pa
            pageMask := mask
            entryValid := true
            pmr := pmr
            ghostSatp := vm.hart.csrBlob CSR_ADDRESS_SATP } := by
  unfold leafAt
  rcases searchPmRegionCallback vm.pmrOps pa with _ | _ | pmr
  · simp
  · simp
  · simp [eq_comm]

theorem walkLeaf_eq_ok {vm : Vm} {va : Word} {entry : TlbEntry} :
    walkLeaf vm va = some (.ok entry) ↔
      vm.hart.csrBlob CSR_ADDRESS_SATP &&& 0x80000000 ≠ 0 ∧
      ∃ level1Pte,
        pteAt vm (level1Address (vm.hart.csrBlob CSR_ADDRESS_SATP) va) = some (some level1Pte) ∧
        pteValid level1Pte = true ∧
        ((pteIsLeaf level1Pte = true ∧
            leafAt vm va PAGE_MASK_4M ((level1Pte >>> 10) <<< 12 &&& PAGE_MASK_4M) =
              some (.ok entry)) ∨
          (pteIsLeaf level1Pte = false ∧
            ∃ level2Pte,
              pteAt vm (level2Address level1Pte va) = some (some level2Pte) ∧
              pteValid level2Pte = true ∧
              leafAt vm va PAGE_MASK_4K ((level2Pte >>> 10) <<< 12 &&& PAGE_MASK_4K) =
                some (.ok entry))) := by
  unfold walkLeaf
  by_cases hsatp : vm.hart.csrBlob CSR_ADDRESS_SATP &&& 0x80000000 = 0
  · simp only [hsatp, if_true, ne_eq, not_true_eq_false, false_and, reduceCtorEq]
  simp only [hsatp, if_false, ne_eq, not_false_eq_true, true_and]
  rcases pteAt vm _ with _ | _ | level1Pte
  · simp
  · simp
  by_cases hv : pteValid level1Pte = true
  · by_cases hl : pteIsLeaf level1Pte = true
    · simp [hv, hl]
    · simp only [hv, hl, not_true_eq_false, if_false, Option.some.injEq, exists_eq_left',
        true_and, Bool.not_eq_true]
      rcases pteAt vm _ with _ | _ | level2Pte
      · simp
      · simp
      by_cases hv2 : pteValid level2Pte = true <;> simp [hv2]
  · simp [hv]

/-- What a walk that reaches a leaf installs. -/
theorem walkLeaf_ok {vm : Vm} {va : Word} {entry : TlbEntry}
    (h : walkLeaf vm va = some (.ok entry)) :
    entry.entryValid = true ∧ entry.vaTag = va &&& entry.pageMask ∧
      (entry.pageMask = PAGE_MASK_4M ∨ entry.pageMask = PAGE_MASK_4K) ∧
      entry.ghostSatp = vm.hart.csrBlob CSR_ADDRESS_SATP := by
  obtain ⟨-, level1Pte, -, -, ⟨-, hleaf⟩ | ⟨-, level2Pte, -, -, hleaf⟩⟩ := walkLeaf_eq_ok.mp h
  · obtain ⟨pmr, -, rfl⟩ := leafAt_eq_ok.mp hleaf
    exact ⟨rfl, rfl, .inl rfl, rfl⟩
  · obtain ⟨pmr, -, rfl⟩ := leafAt_eq_ok.mp hleaf
    exact ⟨rfl, rfl, .inr rfl, rfl⟩

theorem leafAt_error {vm : Vm} {va mask pa : Word} {rc : Int}
    (h : leafAt vm va mask pa = some (.error rc)) : rc < 0 := by
  unfold leafAt at h
  rcases hsearch : searchPmRegionCallback vm.pmrOps pa with _ | _ | pmr
  · rw [hsearch] at h
    cases h
  · rw [hsearch] at h
    cases h
    decide
  · rw [hsearch] at h
    cases h

/-- A walk without a leaf returns a negative code. -/
theorem walkLeaf_error {vm : Vm} {va : Word} {rc : Int}
    (h : walkLeaf vm va = some (.error rc)) : rc < 0 := by
  unfold walkLeaf at h
  simp only at h
  split_ifs at h
  split at h
  · cases h
  · cases h
    decide
  split_ifs at h
  · exact leafAt_error h
  · split at h
    · cases h
    · cases h
      decide
    split_ifs at h
    · exact leafAt_error h
    · cases h
      decide
  · cases h
    decide

/-- Two addresses of one page have the same leaf. -/
theorem walkLeaf_congr {vm : Vm} {va va' : Word} {entry : TlbEntry}
    (h : walkLeaf vm va' = some (.ok entry))
    (hpage : va &&& entry.pageMask = va' &&& entry.pageMask) :
    walkLeaf vm va = some (.ok entry) := by
  rw [walkLeaf_eq_ok] at h ⊢
  obtain ⟨hsatp, level1Pte, hpte1, hv1, ⟨hl, hleaf⟩ | ⟨hl, level2Pte, hpte2, hv2, hleaf⟩⟩ := h
  · obtain ⟨pmr, hpmr, rfl⟩ := leafAt_eq_ok.mp hleaf
    refine ⟨hsatp, level1Pte, ?_, hv1, .inl ⟨hl, leafAt_eq_ok.mpr ⟨pmr, hpmr, ?_⟩⟩⟩
    · rw [level1Address, ushiftRight22_eq_of_page4M hpage]
      exact hpte1
    · rw [hpage]
  · obtain ⟨pmr, hpmr, rfl⟩ := leafAt_eq_ok.mp hleaf
    refine ⟨hsatp, level1Pte, ?_, hv1, .inr ⟨hl, level2Pte, ?_, hv2,
      leafAt_eq_ok.mpr ⟨pmr, hpmr, ?_⟩⟩⟩
    · rw [level1Address, ushiftRight22_eq_of_page4K hpage]
      exact hpte1
    · rw [level2Address, ushiftRight12_eq_of_page4K hpage]
      exact hpte2
    · rw [hpage]

/-- Two addresses of one page are cached in the same slot. -/
theorem leafSlot_congr {tlb : Tlb} {va va' mask : Word}
    (hmask : mask = PAGE_MASK_4M ∨ mask = PAGE_MASK_4K) (hpage : va &&& mask = va' &&& mask) :
    leafSlot tlb va mask = leafSlot tlb va' mask := by
  rcases hmask with rfl | rfl
  · rw [leafSlot, leafSlot, if_pos rfl, if_pos rfl, Tlb.slot4M, Tlb.slot4M,
      ushiftRight22_eq_of_page4M hpage]
  · have hne : PAGE_MASK_4K ≠ PAGE_MASK_4M := by decide
    rw [leafSlot, leafSlot, if_neg hne, if_neg hne, Tlb.slot4K, Tlb.slot4K,
      ushiftRight12_eq_of_page4K hpage]

end Zelda.Proofs.PageWalk
