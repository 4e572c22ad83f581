import Zelda.Isa.Sv32
import Zelda.Proofs.DataAccess
import Zelda.Proofs.RegionTable
/-!
# The page walker against Sv32

The walker reads the entries the architecture names and finds the frames it
means.  It does not refuse the encodings the architecture reserves, and it
takes whatever entry it finds on the second level for a leaf.
-/

namespace Zelda.Proofs.Sv32Walk

open Zelda.Vmm
open Zelda.Lib.Bytes
open Zelda.Proofs.PageWalk
open Zelda.Proofs.Frames
open Zelda.Proofs.DataAccess
open Zelda.Proofs.RegionTable
open Zelda.Isa

/-! ## Entries in memory -/

/-- The word an entry is read from: only RAM can hold one. -/
def ramWord (vm : Vm) (pa : Word) : Option Word :=
  match vm.pmrOps.find? fun pmr => Contains pmr pa with
  | none => none
  | some pmr =>
      if pmr.ops = .ram then
        some (BitVec.ofNat 32 (loadBytes vm.mainMem.bytes (pmr.offset pa) 4))
      else
        none

theorem pteAt_eq_ramWord {vm : Vm} (hsorted : SortedRegions vm.pmrOps) {pa : Word}
    (hpa : pa.toNat % 4 = 0) : pteAt vm pa = some (ramWord vm pa) := by
  have htop : pa.toNat + 1 < 2 ^ 32 := by
    have := pa.isLt
    omega
  unfold pteAt ramWord
  rw [searchPmRegionCallback_eq_find hsorted htop]
  cases vm.pmrOps.find? fun pmr => Contains pmr pa with
  | none => rfl
  | some pmr =>
      simp only
      split
      · rfl
      · rfl

private theorem toNat_and_low (x : Word) (k : Nat) (hk : k < 32) :
    (x &&& BitVec.ofNat 32 (2 ^ k - 1)).toNat = x.toNat % 2 ^ k := by
  have hlt : 2 ^ k - 1 < 2 ^ 32 := by
    have := Nat.pow_lt_pow_right (show 1 < 2 by decide) hk
    omega
  rw [BitVec.toNat_and, BitVec.toNat_ofNat, Nat.mod_eq_of_lt hlt, Nat.and_two_pow_sub_one_eq_mod]

/-- The walker's table index is the field of the page number. -/
theorem toNat_index (va : Word) (i : Nat) :
    (((va >>> (12 + 10 * i)) &&& 0x3ff) * 4).toNat = Sv32.vpn va i * 4 := by
  have hand := toNat_and_low (va >>> (12 + 10 * i)) 10 (by decide)
  have hmask : BitVec.ofNat 32 (2 ^ 10 - 1) = (0x3ff : Word) := by decide
  rw [hmask] at hand
  have hfour : (4 : Word).toNat = 4 := rfl
  have hlt := Nat.mod_lt (va.toNat / 2 ^ (12 + 10 * i)) (show 0 < 2 ^ 10 by decide)
  rw [BitVec.toNat_mul, hand, BitVec.toNat_ushiftRight, Nat.shiftRight_eq_div_pow, hfour, Sv32.vpn]
  omega

theorem level1Address_eq (satp va : Word) :
    level1Address satp va =
      Sv32.physical (satp.toNat % 2 ^ 22 * Sv32.PAGESIZE + Sv32.vpn va 1 * Sv32.PTESIZE) := by
  apply BitVec.eq_of_toNat_eq
  have hindex := toNat_index va 1
  rw [level1Address, BitVec.toNat_add, hindex, BitVec.toNat_shiftLeft, Nat.shiftLeft_eq,
    Sv32.physical, BitVec.toNat_ofNat, Sv32.PAGESIZE, Sv32.PTESIZE]
  omega

theorem level2Address_eq (pte va : Word) :
    level2Address pte va =
      Sv32.physical (Sv32.ppn pte * Sv32.PAGESIZE + Sv32.vpn va 0 * Sv32.PTESIZE) := by
  apply BitVec.eq_of_toNat_eq
  have hindex := toNat_index va 0
  rw [level2Address, BitVec.toNat_add, hindex, BitVec.toNat_shiftLeft, BitVec.toNat_ushiftRight,
    Nat.shiftLeft_eq, Nat.shiftRight_eq_div_pow, Sv32.physical, BitVec.toNat_ofNat,
    Sv32.PAGESIZE, Sv32.PTESIZE, Sv32.ppn]
  omega

theorem level1Address_aligned (satp va : Word) : (level1Address satp va).toNat % 4 = 0 := by
  rw [level1Address_eq, Sv32.physical, BitVec.toNat_ofNat, Sv32.PAGESIZE, Sv32.PTESIZE]
  omega

theorem level2Address_aligned (pte va : Word) : (level2Address pte va).toNat % 4 = 0 := by
  rw [level2Address_eq, Sv32.physical, BitVec.toNat_ofNat, Sv32.PAGESIZE, Sv32.PTESIZE]
  omega

/-! ## Frames -/

/-- The frame the walker takes a first-level leaf for. -/
def frame4M (pte : Word) : Word :=
  (pte >>> 10) <<< 12 &&& PAGE_MASK_4M

/-- The frame the walker takes a second-level entry for. -/
def frame4K (pte : Word) : Word :=
  (pte >>> 10) <<< 12 &&& PAGE_MASK_4K

/-- Clearing the low bits of a word. -/
theorem toNat_and_high {x mask : Word} {k : Nat} (hk : k < 32)
    (hmask : mask.toNat = 2 ^ k * (2 ^ (32 - k) - 1))
    (hlow : mask &&& BitVec.ofNat 32 (2 ^ k - 1) = 0) :
    (x &&& mask).toNat = x.toNat / 2 ^ k * 2 ^ k := by
  have hhigh : (x &&& mask) >>> k = x >>> k := and_highMask_ushiftRight (Nat.le_of_lt hk) hmask
  have hshift := congrArg BitVec.toNat hhigh
  rw [BitVec.toNat_ushiftRight, BitVec.toNat_ushiftRight, Nat.shiftRight_eq_div_pow,
    Nat.shiftRight_eq_div_pow] at hshift
  have hmod : (x &&& mask).toNat % 2 ^ k = 0 := by
    rw [← toNat_and_low _ k hk, BitVec.and_assoc, hlow]
    simp
  have hsplit := Nat.div_add_mod (x &&& mask).toNat (2 ^ k)
  rw [hmod, hshift, Nat.add_zero, Nat.mul_comm] at hsplit
  exact hsplit.symm

theorem toNat_and_mask4M (x : Word) : (x &&& PAGE_MASK_4M).toNat = x.toNat / 2 ^ 22 * 2 ^ 22 :=
  toNat_and_high (by decide) (by decide) (by decide)

theorem toNat_and_mask4K (x : Word) : (x &&& PAGE_MASK_4K).toNat = x.toNat / 2 ^ 12 * 2 ^ 12 :=
  toNat_and_high (by decide) (by decide) (by decide)

theorem toNat_ppnShift (pte : Word) :
    ((pte >>> 10) <<< 12).toNat = Sv32.ppn pte * Sv32.PAGESIZE % 2 ^ 32 := by
  rw [BitVec.toNat_shiftLeft, BitVec.toNat_ushiftRight, Nat.shiftLeft_eq,
    Nat.shiftRight_eq_div_pow, Sv32.ppn, Sv32.PAGESIZE]

/-- An aligned superpage starts where the walker puts it. -/
theorem frame4M_eq {pte : Word} (h : Sv32.ppn pte % 2 ^ 10 = 0) :
    frame4M pte = Sv32.physical (Sv32.ppn pte * Sv32.PAGESIZE) := by
  apply BitVec.eq_of_toNat_eq
  rw [frame4M, toNat_and_mask4M, toNat_ppnShift, Sv32.physical, BitVec.toNat_ofNat, Sv32.PAGESIZE]
  omega

theorem frame4K_eq (pte : Word) :
    frame4K pte = Sv32.physical (Sv32.ppn pte * Sv32.PAGESIZE) := by
  apply BitVec.eq_of_toNat_eq
  rw [frame4K, toNat_and_mask4K, toNat_ppnShift, Sv32.physical, BitVec.toNat_ofNat, Sv32.PAGESIZE]
  omega

theorem frame4M_aligned (pte : Word) : (frame4M pte).toNat % 4 = 0 := by
  rw [frame4M, toNat_and_mask4M]
  omega

theorem frame4K_aligned (pte : Word) : (frame4K pte).toNat % 4 = 0 := by
  rw [frame4K, toNat_and_mask4K]
  omega

/-- A page offset added to a frame. -/
theorem toNat_or_offset {base va mask : Word} {k : Nat} (hk : k < 32)
    (hmask : ~~~mask = BitVec.ofNat 32 (2 ^ k - 1)) (hbase : base &&& ~~~mask = 0) :
    base ||| (va &&& ~~~mask) = base + BitVec.ofNat 32 (va.toNat % 2 ^ k) := by
  have hoffset : va &&& ~~~mask = BitVec.ofNat 32 (va.toNat % 2 ^ k) := by
    apply BitVec.eq_of_toNat_eq
    rw [hmask, toNat_and_low va k hk, BitVec.toNat_ofNat]
    have := Nat.mod_le va.toNat (2 ^ k)
    have := va.isLt
    omega
  have hdisjoint : base &&& (va &&& ~~~mask) = 0 := by
    rw [BitVec.and_comm va, ← BitVec.and_assoc, hbase]
    exact BitVec.zero_and
  rw [← BitVec.add_eq_or_of_and_eq_zero _ _ hdisjoint, hoffset]

/-! ## Both walks, entry by entry -/

/-- Writable but not readable, which the architecture reserves. -/
def Reserved (pte : Word) : Prop :=
  Sv32.r pte = false ∧ Sv32.w pte = true

/-- What the architecture asks of a first-level leaf. -/
def WellFormed4M (pte : Word) : Prop :=
  ¬Reserved pte ∧ Sv32.ppn pte % 2 ^ 10 = 0

/-- What the architecture asks of a second-level entry. -/
def WellFormed4K (pte : Word) : Prop :=
  ¬Reserved pte ∧ pteIsLeaf pte = true

theorem isLeaf_iff {pte : Word} (h : ¬Reserved pte) :
    pteIsLeaf pte = true ↔ Sv32.r pte = true ∨ Sv32.x pte = true := by
  unfold Reserved Sv32.r Sv32.w at h
  unfold pteIsLeaf Sv32.r Sv32.x
  revert h
  cases pte.getLsbD 1 <;> cases pte.getLsbD 2 <;> cases pte.getLsbD 3 <;> decide

theorem not_reserved_of_pointer {pte : Word} (h : pteIsLeaf pte = false) : ¬Reserved pte := by
  unfold Reserved Sv32.r Sv32.w
  unfold pteIsLeaf at h
  revert h
  cases pte.getLsbD 1 <;> cases pte.getLsbD 2 <;> cases pte.getLsbD 3 <;> decide

/-- One level of the architecture's walk. -/
theorem walk_succ {rd : Word → Option Word} {va : Word} {i a : Nat} {leaf : Sv32.Leaf} :
    Sv32.walk rd va (i + 1) a = some leaf ↔
      ∃ pte, rd (Sv32.physical (a * Sv32.PAGESIZE + Sv32.vpn va i * Sv32.PTESIZE)) = some pte ∧
        pteValid pte = true ∧ ¬Reserved pte ∧
        ((pteIsLeaf pte = true ∧ Sv32.ppn pte % 2 ^ (10 * i) = 0 ∧
            leaf = { level := i, ppn := Sv32.ppn pte }) ∨
          (pteIsLeaf pte = false ∧ Sv32.walk rd va i (Sv32.ppn pte) = some leaf)) := by
  rw [Sv32.walk]
  cases rd (Sv32.physical (a * Sv32.PAGESIZE + Sv32.vpn va i * Sv32.PTESIZE)) with
  | none => simp
  | some pte =>
      simp only [Option.some.injEq, exists_eq_left']
      by_cases hv : pteValid pte = true
      · by_cases hreserved : Reserved pte
        · rw [if_pos (.inr (show Sv32.r pte = false ∧ Sv32.w pte = true from hreserved))]
          simp [hreserved]
        · have hok : ¬(Sv32.v pte = false ∨ (Sv32.r pte = false ∧ Sv32.w pte = true)) := by
            rintro (hinvalid | hbad)
            · rw [show Sv32.v pte = true from hv] at hinvalid
              cases hinvalid
            · exact hreserved hbad
          rw [if_neg hok]
          by_cases hleaf : pteIsLeaf pte = true
          · rw [if_pos ((isLeaf_iff hreserved).mp hleaf)]
            by_cases haligned : Sv32.ppn pte % 2 ^ (10 * i) = 0
            · simp [hv, hreserved, hleaf, haligned, eq_comm]
            · simp [hleaf, haligned]
          · rw [if_neg fun hrx => hleaf ((isLeaf_iff hreserved).mpr hrx)]
            simp [hv, hreserved, hleaf]
      · rw [if_pos (.inl (show Sv32.v pte = false from Bool.eq_false_iff.mpr hv))]
        simp [hv]

theorem translate_eq_some {rd : Word → Option Word} {satp va : Word} {leaf : Sv32.Leaf} :
    Sv32.translate rd satp va = some leaf ↔
      ∃ pte1, rd (level1Address satp va) = some pte1 ∧ pteValid pte1 = true ∧
        ((pteIsLeaf pte1 = true ∧ WellFormed4M pte1 ∧
            leaf = { level := 1, ppn := Sv32.ppn pte1 }) ∨
          (pteIsLeaf pte1 = false ∧
            ∃ pte2, rd (level2Address pte1 va) = some pte2 ∧ pteValid pte2 = true ∧
              WellFormed4K pte2 ∧ leaf = { level := 0, ppn := Sv32.ppn pte2 })) := by
  rw [Sv32.translate, Sv32.LEVELS, walk_succ, level1Address_eq]
  constructor
  · rintro ⟨pte1, hpte1, hv1, hres1, ⟨hleaf1, haligned, hleaf⟩ | ⟨hpointer, hwalk⟩⟩
    · exact ⟨pte1, hpte1, hv1, .inl ⟨hleaf1, ⟨hres1, haligned⟩, hleaf⟩⟩
    · rw [walk_succ, ← level2Address_eq] at hwalk
      obtain ⟨pte2, hpte2, hv2, hres2, ⟨hleaf2, -, hleaf⟩ | ⟨-, hwalk⟩⟩ := hwalk
      · exact ⟨pte1, hpte1, hv1, .inr ⟨hpointer, pte2, hpte2, hv2, ⟨hres2, hleaf2⟩, hleaf⟩⟩
      · cases hwalk
  · rintro ⟨pte1, hpte1, hv1, ⟨hleaf1, ⟨hres1, haligned⟩, hleaf⟩ |
      ⟨hpointer, pte2, hpte2, hv2, ⟨hres2, hleaf2⟩, hleaf⟩⟩
    · exact ⟨pte1, hpte1, hv1, hres1, .inl ⟨hleaf1, haligned, hleaf⟩⟩
    · refine ⟨pte1, hpte1, hv1, not_reserved_of_pointer hpointer, .inr ⟨hpointer, ?_⟩⟩
      rw [walk_succ, ← level2Address_eq]
      exact ⟨pte2, hpte2, hv2, hres2, .inl ⟨hleaf2, Nat.mod_one _, hleaf⟩⟩

/-- A frame starts in a registered region. -/
def Backed (vm : Vm) (base : Word) : Prop :=
  ∃ pmr ∈ vm.pmrOps, Contains pmr base

/--
The walk of `va` ends at an entry that its level accepts and whose frame is
backed, and `pa` is where that frame puts `va`.
-/
def Reaches (accept4M accept4K : Word → Prop) (vm : Vm) (va pa : Word) : Prop :=
  ∃ pte1, ramWord vm (level1Address (vm.hart.csrBlob CSR_ADDRESS_SATP) va) = some pte1 ∧
    pteValid pte1 = true ∧
    ((pteIsLeaf pte1 = true ∧ accept4M pte1 ∧ Backed vm (frame4M pte1) ∧
        pa = frame4M pte1 ||| (va &&& ~~~PAGE_MASK_4M)) ∨
      (pteIsLeaf pte1 = false ∧
        ∃ pte2, ramWord vm (level2Address pte1 va) = some pte2 ∧ pteValid pte2 = true ∧
          accept4K pte2 ∧ Backed vm (frame4K pte2) ∧
          pa = frame4K pte2 ||| (va &&& ~~~PAGE_MASK_4K)))

theorem search_of_backed {vm : Vm} (hsorted : SortedRegions vm.pmrOps) (base : Word) :
    (∃ pmr, searchPmRegionCallback vm.pmrOps base = some (some pmr)) ↔ Backed vm base := by
  constructor
  · rintro ⟨pmr, hpmr⟩
    obtain ⟨hmem, hcontains⟩ := searchPmRegionCallback_sound hpmr
    exact ⟨pmr, hmem, hcontains⟩
  · rintro ⟨pmr, hmem, hcontains⟩
    exact ⟨pmr, searchPmRegionCallback_complete hsorted hmem hcontains.1 hcontains.2⟩

/-- The walker accepts every valid entry. -/
theorem walkLeaf_reaches {vm : Vm} (hsorted : SortedRegions vm.pmrOps)
    (hsatp : vm.hart.csrBlob CSR_ADDRESS_SATP &&& 0x80000000 ≠ 0) (va pa : Word) :
    (∃ entry, walkLeaf vm va = some (.ok entry) ∧ entry.physical va = pa) ↔
      Reaches (fun _ => True) (fun _ => True) vm va pa := by
  constructor
  · rintro ⟨entry, hwalk, rfl⟩
    obtain ⟨-, pte1, hpte1, hv1, hrest⟩ := walkLeaf_eq_ok.mp hwalk
    rw [pteAt_eq_ramWord hsorted (level1Address_aligned _ _)] at hpte1
    refine ⟨pte1, Option.some.inj hpte1, hv1, ?_⟩
    rcases hrest with ⟨hleaf1, hentry⟩ | ⟨hpointer, pte2, hpte2, hv2, hentry⟩
    · obtain ⟨pmr, hpmr, rfl⟩ := leafAt_eq_ok.mp hentry
      exact .inl ⟨hleaf1, trivial, (search_of_backed hsorted (frame4M pte1)).mp ⟨pmr, hpmr⟩,
        rfl⟩
    · rw [pteAt_eq_ramWord hsorted (level2Address_aligned _ _)] at hpte2
      obtain ⟨pmr, hpmr, rfl⟩ := leafAt_eq_ok.mp hentry
      exact .inr ⟨hpointer, pte2, Option.some.inj hpte2, hv2, trivial,
        (search_of_backed hsorted (frame4K pte2)).mp ⟨pmr, hpmr⟩, rfl⟩
  · rintro ⟨pte1, hpte1, hv1, ⟨hleaf1, -, hbacked, rfl⟩ |
      ⟨hpointer, pte2, hpte2, hv2, -, hbacked, rfl⟩⟩
    · obtain ⟨pmr, hpmr⟩ := (search_of_backed hsorted (frame4M pte1)).mpr hbacked
      refine ⟨_, walkLeaf_eq_ok.mpr ⟨hsatp, pte1, ?_, hv1, .inl ⟨hleaf1,
        leafAt_eq_ok.mpr ⟨pmr, hpmr, rfl⟩⟩⟩, rfl⟩
      rw [pteAt_eq_ramWord hsorted (level1Address_aligned _ _), hpte1]
    · obtain ⟨pmr, hpmr⟩ := (search_of_backed hsorted (frame4K pte2)).mpr hbacked
      refine ⟨_, walkLeaf_eq_ok.mpr ⟨hsatp, pte1, ?_, hv1, .inr ⟨hpointer, pte2, ?_, hv2,
        leafAt_eq_ok.mpr ⟨pmr, hpmr, rfl⟩⟩⟩, rfl⟩
      · rw [pteAt_eq_ramWord hsorted (level1Address_aligned _ _), hpte1]
      · rw [pteAt_eq_ramWord hsorted (level2Address_aligned _ _), hpte2]

theorem address_4M {pte va : Word} (h : Sv32.ppn pte % 2 ^ 10 = 0) :
    ({ level := 1, ppn := Sv32.ppn pte } : Sv32.Leaf).address va =
      frame4M pte ||| (va &&& ~~~PAGE_MASK_4M) := by
  have hbase : frame4M pte &&& ~~~PAGE_MASK_4M = 0 := by
    rw [frame4M, BitVec.and_assoc, show PAGE_MASK_4M &&& ~~~PAGE_MASK_4M = 0 by decide]
    exact BitVec.and_zero
  rw [toNat_or_offset (k := 22) (by decide) (by decide) hbase, frame4M_eq h]
  exact BitVec.ofNat_add ..

theorem address_4K (pte va : Word) :
    ({ level := 0, ppn := Sv32.ppn pte } : Sv32.Leaf).address va =
      frame4K pte ||| (va &&& ~~~PAGE_MASK_4K) := by
  have hbase : frame4K pte &&& ~~~PAGE_MASK_4K = 0 := by
    rw [frame4K, BitVec.and_assoc, show PAGE_MASK_4K &&& ~~~PAGE_MASK_4K = 0 by decide]
    exact BitVec.and_zero
  rw [toNat_or_offset (k := 12) (by decide) (by decide) hbase, frame4K_eq]
  exact BitVec.ofNat_add ..

/-- The architecture maps `va` to `pa`, in a page that starts in a registered region. -/
def Maps (vm : Vm) (va pa : Word) : Prop :=
  ∃ leaf, Sv32.translate (ramWord vm) (vm.hart.csrBlob CSR_ADDRESS_SATP) va = some leaf ∧
    leaf.address va = pa ∧ Backed vm leaf.base

/-- The architecture accepts well-formed entries only. -/
theorem maps_reaches (vm : Vm) (va pa : Word) :
    Maps vm va pa ↔ Reaches WellFormed4M WellFormed4K vm va pa := by
  constructor
  · rintro ⟨leaf, htranslate, rfl, hbacked⟩
    obtain ⟨pte1, hpte1, hv1, ⟨hleaf1, hwf, rfl⟩ | ⟨hpointer, pte2, hpte2, hv2, hwf, rfl⟩⟩ :=
      translate_eq_some.mp htranslate
    · refine ⟨pte1, hpte1, hv1, .inl ⟨hleaf1, hwf, ?_, address_4M hwf.2⟩⟩
      rw [frame4M_eq hwf.2]
      exact hbacked
    · refine ⟨pte1, hpte1, hv1, .inr ⟨hpointer, pte2, hpte2, hv2, hwf, ?_, address_4K pte2 va⟩⟩
      rw [frame4K_eq]
      exact hbacked
  · rintro ⟨pte1, hpte1, hv1, ⟨hleaf1, hwf, hbacked, rfl⟩ |
      ⟨hpointer, pte2, hpte2, hv2, hwf, hbacked, rfl⟩⟩
    · refine ⟨_, translate_eq_some.mpr ⟨pte1, hpte1, hv1, .inl ⟨hleaf1, hwf, rfl⟩⟩,
        address_4M hwf.2, ?_⟩
      rw [frame4M_eq hwf.2] at hbacked
      exact hbacked
    · refine ⟨_, translate_eq_some.mpr ⟨pte1, hpte1, hv1,
        .inr ⟨hpointer, pte2, hpte2, hv2, hwf, rfl⟩⟩, address_4K pte2 va, ?_⟩
      rw [frame4K_eq] at hbacked
      exact hbacked

/-! ## The comparison -/

/-- The walk returns 0, and the entry the next lookup finds translates `va` to `pa`. -/
def Installs (vm : Vm) (tlb : Tlb) (va pa : Word) : Prop :=
  ∃ tlb' entry, walkPageTable vm va tlb = some (0, tlb') ∧ tlb'.vaToTlbEntry va = some entry ∧
    entry.physical va = pa

theorem installs_iff {vm : Vm} {tlb : Tlb} {va : Word} (hmiss : tlb.vaToTlbEntry va = none)
    (pa : Word) : Installs vm tlb va pa ↔
      ∃ entry, walkLeaf vm va = some (.ok entry) ∧ entry.physical va = pa := by
  unfold Installs
  rw [walkPageTable_eq]
  rcases hleaf : walkLeaf vm va with _ | (rc | entry)
  · simp
  · have hne : rc ≠ 0 := (walkLeaf_error hleaf).ne
    simp [fill, hne]
  · have hfound := vaToTlbEntry_install hmiss (walkLeaf_ok hleaf).1
    simp [fill, hfound]

/-- The walker takes an entry that the architecture refuses, and its frame is backed. -/
def Misreads (vm : Vm) (va : Word) : Prop :=
  ∃ pa, Reaches (fun pte => ¬WellFormed4M pte) (fun pte => ¬WellFormed4K pte) vm va pa

/-- A walk has one end. -/
theorem Reaches.elim {p4M p4K q4M q4K : Word → Prop} {vm : Vm} {va pa pa' : Word}
    (h : Reaches p4M p4K vm va pa) (h' : Reaches q4M q4K vm va pa')
    (h4M : ∀ pte, p4M pte → ¬q4M pte) (h4K : ∀ pte, p4K pte → ¬q4K pte) : False := by
  obtain ⟨pte1, hpte1, -, hend⟩ := h
  obtain ⟨pte1', hpte1', -, hend'⟩ := h'
  rw [hpte1] at hpte1'
  obtain rfl := Option.some.inj hpte1'
  rcases hend with ⟨hleaf, hp, -⟩ | ⟨hpointer, pte2, hpte2, -, hp, -⟩
  · rcases hend' with ⟨-, hq, -⟩ | ⟨hpointer, -⟩
    · exact h4M pte1 hp hq
    · rw [hleaf] at hpointer
      cases hpointer
  · rcases hend' with ⟨hleaf, -⟩ | ⟨-, pte2', hpte2', -, hq, -⟩
    · rw [hleaf] at hpointer
      cases hpointer
    · rw [hpte2] at hpte2'
      obtain rfl := Option.some.inj hpte2'
      exact h4K pte2 hp hq

theorem Reaches.mono {p4M p4K q4M q4K : Word → Prop} {vm : Vm} {va pa : Word}
    (h : Reaches p4M p4K vm va pa) (h4M : ∀ pte, p4M pte → q4M pte)
    (h4K : ∀ pte, p4K pte → q4K pte) : Reaches q4M q4K vm va pa := by
  obtain ⟨pte1, hpte1, hv1, ⟨hleaf, hp, hrest⟩ | ⟨hpointer, pte2, hpte2, hv2, hp, hrest⟩⟩ := h
  · exact ⟨pte1, hpte1, hv1, .inl ⟨hleaf, h4M pte1 hp, hrest⟩⟩
  · exact ⟨pte1, hpte1, hv1, .inr ⟨hpointer, pte2, hpte2, hv2, h4K pte2 hp, hrest⟩⟩

/-- Every end is well formed or not. -/
theorem Reaches.split {vm : Vm} {va pa : Word}
    (h : Reaches (fun _ => True) (fun _ => True) vm va pa) :
    Reaches WellFormed4M WellFormed4K vm va pa ∨
      Reaches (fun pte => ¬WellFormed4M pte) (fun pte => ¬WellFormed4K pte) vm va pa := by
  obtain ⟨pte1, hpte1, hv1, ⟨hleaf, -, hrest⟩ | ⟨hpointer, pte2, hpte2, hv2, -, hrest⟩⟩ := h
  · by_cases hwf : WellFormed4M pte1
    · exact .inl ⟨pte1, hpte1, hv1, .inl ⟨hleaf, hwf, hrest⟩⟩
    · exact .inr ⟨pte1, hpte1, hv1, .inl ⟨hleaf, hwf, hrest⟩⟩
  · by_cases hwf : WellFormed4K pte2
    · exact .inl ⟨pte1, hpte1, hv1, .inr ⟨hpointer, pte2, hpte2, hv2, hwf, hrest⟩⟩
    · exact .inr ⟨pte1, hpte1, hv1, .inr ⟨hpointer, pte2, hpte2, hv2, hwf, hrest⟩⟩

/-- The walker implements Sv32 exactly where it does not misread an entry. -/
theorem walk_implements_sv32_iff {vm : Vm} (hsorted : SortedRegions vm.pmrOps)
    (hsatp : vm.hart.csrBlob CSR_ADDRESS_SATP &&& 0x80000000 ≠ 0) {va : Word} {tlb : Tlb}
    (hmiss : tlb.vaToTlbEntry va = none) :
    (∀ pa, Installs vm tlb va pa ↔ Maps vm va pa) ↔ ¬Misreads vm va := by
  have hinstalls : ∀ pa, Installs vm tlb va pa ↔
      Reaches (fun _ => True) (fun _ => True) vm va pa := fun pa =>
    (installs_iff hmiss pa).trans (walkLeaf_reaches hsorted hsatp va pa)
  constructor
  · rintro h ⟨pa, hbad⟩
    have hmaps : Maps vm va pa := by
      apply (h pa).mp
      apply (hinstalls pa).mpr
      exact hbad.mono (fun _ _ => trivial) fun _ _ => trivial
    exact hbad.elim ((maps_reaches vm va pa).mp hmaps) (fun _ hp => hp) fun _ hp => hp
  · intro h pa
    rw [hinstalls, maps_reaches]
    constructor
    · intro hend
      rcases hend.split with hgood | hbad
      · exact hgood
      · exact absurd ⟨pa, hbad⟩ h
    · intro hend
      exact hend.mono (fun _ _ => trivial) fun _ _ => trivial

/-- A machine whose root table is at the start of RAM and holds one entry, for address 0. -/
def rootEntryVm (pte : Word) : Vm :=
  { virtualMachineInit (fun _ => 0)
      (fun k => if k < 4 then BitVec.ofNat 8 (pte.toNat / 256 ^ k) else 0) with
    hart :=
      { initialHart with
        csrBlob := Function.update initialCsrBlob CSR_ADDRESS_SATP 0x80080000
        privilegeLevel := PRIVILEGE_LEVEL_SUPERVISOR } }

theorem ramWord_rootEntry {pte : Word}
    (h : ramWord (rootEntryVm pte) 0x80000000 = some pte) {accept4M accept4K : Word → Prop}
    {pa : Word} (hend : Reaches accept4M accept4K (rootEntryVm pte) 0 pa)
    (hleaf : pteIsLeaf pte = true) : accept4M pte := by
  obtain ⟨pte1, hpte1, -, hrest⟩ := hend
  have hroot : level1Address ((rootEntryVm pte).hart.csrBlob CSR_ADDRESS_SATP) 0 = 0x80000000 := by
    show level1Address 0x80080000 0 = 0x80000000
    decide
  rw [hroot, h] at hpte1
  obtain rfl := Option.some.inj hpte1
  rcases hrest with ⟨-, haccept, -⟩ | ⟨hpointer, -⟩
  · exact haccept
  · rw [hleaf] at hpointer
    cases hpointer

/-- A readable, writable and executable superpage at the start of RAM. -/
theorem walk_implements_sv32_superpage :
    ramWord (rootEntryVm 0x2000000f) 0x80000000 = some 0x2000000f ∧
      ∀ pa, Installs (rootEntryVm 0x2000000f) initialTlb 0 pa ↔ Maps (rootEntryVm 0x2000000f) 0 pa := by
  have hword : ramWord (rootEntryVm 0x2000000f) 0x80000000 = some 0x2000000f := by decide +kernel
  refine ⟨hword, ?_⟩
  apply (walk_implements_sv32_iff sortedRegions_platform (by decide) rfl).mpr
  rintro ⟨pa, hbad⟩
  apply ramWord_rootEntry hword hbad (by decide)
  unfold WellFormed4M Reserved
  decide

/-- The walker maps a page through a writable entry that is not readable. -/
theorem reserved_entry_translates :
    ¬∀ (vm : Vm) (va : Word) (tlb : Tlb), SortedRegions vm.pmrOps →
      vm.hart.csrBlob CSR_ADDRESS_SATP &&& 0x80000000 ≠ 0 → tlb.vaToTlbEntry va = none →
      ∀ pa, Installs vm tlb va pa ↔ Maps vm va pa := by
  intro h
  have hword : ramWord (rootEntryVm 0x20000005) 0x80000000 = some 0x20000005 := by decide +kernel
  have hsatp : (rootEntryVm 0x20000005).hart.csrBlob CSR_ADDRESS_SATP &&& 0x80000000 ≠ 0 := by
    decide
  have hinstalls : Installs (rootEntryVm 0x20000005) initialTlb 0 0x80000000 := by
    apply (installs_iff rfl _).mpr
    apply (walkLeaf_reaches sortedRegions_platform hsatp 0 _).mpr
    refine ⟨0x20000005, hword, by decide, .inl ⟨by decide, trivial, ?_, by decide⟩⟩
    refine ⟨{ addrLow := 0x80000000, addrHigh := 0x90000000, ops := .ram }, ?_, ?_⟩
    · show _ ∈ platformRegions
      decide
    · decide
  have hmaps := (h _ 0 initialTlb sortedRegions_platform hsatp rfl 0x80000000).mp hinstalls
  have hwf := ramWord_rootEntry hword ((maps_reaches _ _ _).mp hmaps) (by decide)
  apply hwf.1
  unfold Reserved
  decide

/-! ## Hostile page tables -/

/-- The addresses at which `walk_page_table` reads an entry. -/
def pteReads (vm : Vm) (va : Word) : List Word :=
  let root := level1Address (vm.hart.csrBlob CSR_ADDRESS_SATP) va
  match pteAt vm root with
  | some (some level1Pte) =>
      if pteValid level1Pte = true ∧ pteIsLeaf level1Pte = false then
        let second := level2Address level1Pte va
        match pteAt vm second with
        | some (some _) => [root, second]
        | _ => [root]
      else
        [root]
  | _ => []

/-- An aligned word that lies in RAM as a whole. -/
def RamWordAt (vm : Vm) (a : Word) : Prop :=
  a.toNat % 4 = 0 ∧ ∃ pmr ∈ vm.pmrOps, pmr.ops = .ram ∧ pmr.addrLow.toNat ≤ a.toNat ∧
    a.toNat + 4 ≤ pmr.addrHigh.toNat

/-- RAM starts at an aligned address and is whole megabytes long. -/
def RamWhole (vm : Vm) : Prop :=
  ∀ pmr ∈ vm.pmrOps, pmr.ops = .ram →
    pmr.addrLow.toNat % 4 = 0 ∧ (pmr.addrHigh.toNat - pmr.addrLow.toNat) % 2 ^ 20 = 0

/-- Two machines with the same regions and `satp` whose memories agree on some words. -/
structure AgreeOn (words : List Word) (vm vm' : Vm) : Prop where
  pmrOps : vm'.pmrOps = vm.pmrOps
  satp : vm'.hart.csrBlob CSR_ADDRESS_SATP = vm.hart.csrBlob CSR_ADDRESS_SATP
  bytes : ∀ a ∈ words, ∀ pmr ∈ vm.pmrOps, Contains pmr a → ∀ k, pmr.offset a ≤ k →
    k < pmr.offset a + 4 → vm'.mainMem.bytes k = vm.mainMem.bytes k

theorem ramWordAt_of_pteAt {vm : Vm} (hram : RamWhole vm) {pa pte : Word}
    (hpa : pa.toNat % 4 = 0) (h : pteAt vm pa = some (some pte)) : RamWordAt vm pa := by
  unfold pteAt at h
  split at h
  · cases h
  · cases h
  · rename_i pmr hsearch
    split at h
    · rename_i hops
      obtain ⟨hmem, hlow, hhigh⟩ := searchPmRegionCallback_sound hsearch
      obtain ⟨haligned, hwhole⟩ := hram pmr hmem hops
      refine ⟨hpa, pmr, hmem, hops, hlow, ?_⟩
      rw [BitVec.le_def] at hlow
      rw [BitVec.lt_def] at hhigh
      omega
    · cases h

theorem ramWordAt_of_read {vm : Vm} (hram : RamWhole vm) {va a : Word}
    (h : a ∈ pteReads vm va) : RamWordAt vm a := by
  unfold pteReads at h
  simp only at h
  split at h
  · rename_i level1Pte hroot
    have hfirst := ramWordAt_of_pteAt hram (level1Address_aligned _ _) hroot
    split at h
    · split at h
      · rename_i hsecond
        rcases List.mem_cons.mp h with rfl | h
        · exact hfirst
        · rw [List.mem_singleton.mp h]
          exact ramWordAt_of_pteAt hram (level2Address_aligned _ _) hsecond
      · rw [List.mem_singleton.mp h]
        exact hfirst
    · rw [List.mem_singleton.mp h]
      exact hfirst
  · cases h

/-- An entry is the same in two machines that agree on it, or it cannot be read in either. -/
theorem pteAt_of_agreeOn {words : List Word} {vm vm' : Vm} (h : AgreeOn words vm vm') {a : Word}
    (ha : ∀ pte, pteAt vm a = some (some pte) → a ∈ words) : pteAt vm' a = pteAt vm a := by
  unfold pteAt at ha ⊢
  rw [h.pmrOps]
  rcases hsearch : searchPmRegionCallback vm.pmrOps a with _ | _ | pmr
  · rfl
  · rfl
  · simp only
    by_cases hops : pmr.ops = .ram
    · simp only [hsearch, hops, if_true] at ha ⊢
      obtain ⟨hmem, hcontains⟩ := searchPmRegionCallback_sound hsearch
      rw [loadBytes_congr (h.bytes a (ha _ rfl) pmr hmem hcontains)]
    · rw [if_neg hops, if_neg hops]

/-- The outcome of a walk depends on no other word of memory than the entries it reads. -/
theorem walkLeaf_of_agreeOn {vm vm' : Vm} {va : Word} (h : AgreeOn (pteReads vm va) vm vm') :
    walkLeaf vm' va = walkLeaf vm va := by
  have hroot : pteAt vm' (level1Address (vm.hart.csrBlob CSR_ADDRESS_SATP) va) =
      pteAt vm (level1Address (vm.hart.csrBlob CSR_ADDRESS_SATP) va) := by
    apply pteAt_of_agreeOn h
    intro pte hpte
    unfold pteReads
    simp only [hpte]
    split
    · split <;> simp
    · simp
  unfold walkLeaf leafAt
  simp only [h.satp, h.pmrOps, hroot]
  split
  · rfl
  rcases hpte1 : pteAt vm (level1Address (vm.hart.csrBlob CSR_ADDRESS_SATP) va) with _ | _ | pte1
  · rfl
  · rfl
  by_cases hv : pteValid pte1 = true
  · by_cases hleaf : pteIsLeaf pte1 = true
    · simp only [hv, hleaf, not_true_eq_false, if_false, if_true]
    · have hsecond : pteAt vm' (level2Address pte1 va) = pteAt vm (level2Address pte1 va) := by
        apply pteAt_of_agreeOn h
        intro pte hpte
        unfold pteReads
        simp [hpte1, hv, hleaf, hpte]
      simp only [hsecond]
  · simp only [hv]
    rfl

/-- Among sorted regions a walk trips no assertion. -/
theorem walkLeaf_isSome {vm : Vm} (hsorted : SortedRegions vm.pmrOps)
    (hsatp : vm.hart.csrBlob CSR_ADDRESS_SATP &&& 0x80000000 ≠ 0) (va : Word) :
    (walkLeaf vm va).isSome := by
  have hleafAt : ∀ mask pa : Word, pa.toNat % 4 = 0 → (leafAt vm va mask pa).isSome := by
    intro mask pa hpa
    have htop : pa.toNat + 1 < 2 ^ 32 := by
      have := pa.isLt
      omega
    unfold leafAt
    rw [searchPmRegionCallback_eq_find hsorted htop]
    rfl
  unfold walkLeaf
  simp only [hsatp, if_false]
  rw [pteAt_eq_ramWord hsorted (level1Address_aligned _ _)]
  cases ramWord vm (level1Address (vm.hart.csrBlob CSR_ADDRESS_SATP) va) with
  | none => rfl
  | some pte1 =>
      simp only
      split
      · rfl
      split
      · exact hleafAt _ _ (frame4M_aligned pte1)
      rw [pteAt_eq_ramWord hsorted (level2Address_aligned _ _)]
      cases ramWord vm (level2Address pte1 va) with
      | none => rfl
      | some pte2 =>
          simp only
          split
          · rfl
          · exact hleafAt _ _ (frame4K_aligned pte2)

/-- What the callers of a failed walk do: a page fault with the address as trap value. -/
def CallersFault (vm : Vm) (va : Word) : TlbSide → Prop
  | .itlb =>
      mmuInstructionRead32 va vm = .error .trap (excepted vm EXCEPTION_INSTRUCTION_PAGE_FAULT va)
  | .dtlb =>
      (∀ size, vmread va size vm = .error .trap (excepted vm EXCEPTION_LOAD_PAGE_FAULT va)) ∧
        ∀ size value, vmwrite va size value vm =
          .error .trap (excepted vm EXCEPTION_STORE_PAGE_FAULT va)

theorem callersFault {vm : Vm} {va : Word} {side : TlbSide} (hpaging : vm.hart.pagingOn = true)
    (hmiss : (vm.hart.tlb side).vaToTlbEntry va = none) {rc : Int}
    (hwalk : walkLeaf vm va = some (.error rc)) : CallersFault vm va side := by
  cases side with
  | itlb => exact mmuInstructionRead32_of_fault ⟨hpaging, hmiss, rc, hwalk⟩
  | dtlb =>
      have htarget : target vm va = .pageFault := by
        have hmiss' : vm.hart.dtlb.vaToTlbEntry va = none := hmiss
        unfold target
        rw [if_pos hpaging, hmiss', hwalk]
        rfl
      constructor
      · intro size
        rw [vmread_apply, htarget]
      · intro size value
        rw [vmwrite_apply, htarget]

/-- The two ways a walk may end. -/
inductive WalkEnd (vm : Vm) (side : TlbSide) (va : Word) : Int → Tlb → Prop
  /-- The entry just installed is what the next lookup yields. -/
  | installed (slot : Word) (entry : TlbEntry)
      (tag : entry.vaTag = va &&& entry.pageMask)
      (lookup : ((vm.hart.tlb side).install slot entry).vaToTlbEntry va = some entry) :
      WalkEnd vm side va 0 ((vm.hart.tlb side).install slot entry)
  /-- Nothing is changed, the lookup still misses, and the guest gets a page fault. -/
  | faulted (rc : Int) (negative : rc < 0)
      (lookup : (vm.hart.tlb side).vaToTlbEntry va = none)
      (fault : vm.hart.pagingOn = true → CallersFault vm va side) :
      WalkEnd vm side va rc (vm.hart.tlb side)

/--
A page walk survives any page tables: it trips no assertion, reads aligned
words of RAM only, and either installs the entry that is looked up next or
changes nothing.
-/
theorem walk_robust {vm : Vm} (hsorted : SortedRegions vm.pmrOps) (hram : RamWhole vm)
    (hsatp : vm.hart.csrBlob CSR_ADDRESS_SATP &&& 0x80000000 ≠ 0) {va : Word} {side : TlbSide}
    (hmiss : (vm.hart.tlb side).vaToTlbEntry va = none) :
    (∃ rc tlb, walkPageTable vm va (vm.hart.tlb side) = some (rc, tlb) ∧
      WalkEnd vm side va rc tlb) ∧
    (∀ a ∈ pteReads vm va, RamWordAt vm a) ∧
    ∀ vm', AgreeOn (pteReads vm va) vm vm' →
      walkPageTable vm' va (vm.hart.tlb side) = walkPageTable vm va (vm.hart.tlb side) := by
  refine ⟨?_, fun a ha => ramWordAt_of_read hram ha, ?_⟩
  · obtain ⟨outcome, hleaf⟩ := Option.isSome_iff_exists.mp (walkLeaf_isSome hsorted hsatp va)
    rw [walkPageTable_eq, hleaf]
    cases outcome with
    | error rc =>
        exact ⟨rc, _, rfl, .faulted rc (walkLeaf_error hleaf) hmiss
          fun hpaging => callersFault hpaging hmiss hleaf⟩
    | ok entry =>
        obtain ⟨hvalid, htag, -⟩ := walkLeaf_ok hleaf
        exact ⟨0, _, rfl, .installed _ entry htag (vaToTlbEntry_install hmiss hvalid)⟩
  · intro vm' hagree
    rw [walkPageTable_eq, walkPageTable_eq, walkLeaf_of_agreeOn hagree]

theorem walk_robust_superpage :
    pteReads (rootEntryVm 0x2000000f) 0 = [0x80000000] ∧
      ∃ rc tlb, walkPageTable (rootEntryVm 0x2000000f) 0 initialTlb = some (rc, tlb) ∧
        WalkEnd (rootEntryVm 0x2000000f) .dtlb 0 rc tlb := by
  have hram : RamWhole (rootEntryVm 0x2000000f) := by
    show ∀ pmr ∈ platformRegions, _
    decide
  have hmiss : ((rootEntryVm 0x2000000f).hart.tlb .dtlb).vaToTlbEntry 0 = none := rfl
  refine ⟨by decide +kernel, ?_⟩
  exact (walk_robust sortedRegions_platform hram (by decide) hmiss).1

end Zelda.Proofs.Sv32Walk
