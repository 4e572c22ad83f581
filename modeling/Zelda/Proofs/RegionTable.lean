import Zelda.Proofs.PageWalk
import Zelda.Vmm.Init
/-!
# The region table

Registration looks up the low end of a new region only and leaves the rest to
the assertions of the comparator.  These catch a partial overlap but take a
region around another one for the region itself.
-/

namespace Zelda.Proofs.RegionTable

open Zelda.Vmm
open Zelda.Lib
open Zelda.Lib.BinarySearch
open Zelda.Proofs.PageWalk

theorem sortedRegions_platform : SortedRegions platformRegions where
  nonempty := by decide
  ordered := by decide

/-! ## Lookups -/

/-- An address lies in a region. -/
def Contains (pmr : PmRegion) (pa : Word) : Prop :=
  pmr.addrLow ≤ pa ∧ pa < pmr.addrHigh

instance (pmr : PmRegion) (pa : Word) : Decidable (Contains pmr pa) :=
  inferInstanceAs (Decidable (_ ∧ _))

theorem regionSign_ne_zero {pmr : PmRegion} {pa : Word} (h : ¬Contains pmr pa) :
    regionSign pa pmr ≠ 0 := by
  unfold regionSign
  split
  · decide
  · rename_i hlow
    split
    · decide
    · rename_i hhigh
      exact absurd ⟨BitVec.not_lt.mp hlow, BitVec.not_le.mp hhigh⟩ h

/-- Outside every region the lookup finds nothing, in whatever order the regions are. -/
theorem searchPmRegionCallback_eq_none {pmrOps : List PmRegion} {pa : Word}
    (hnonempty : ∀ pmr ∈ pmrOps, pmr.addrLow < pmr.addrHigh) (hpa : pa.toNat + 1 < 2 ^ 32)
    (hout : ∀ pmr ∈ pmrOps, ¬Contains pmr pa) :
    searchPmRegionCallback pmrOps pa = some none := by
  have hnone : search (fun i => pmrOps[i]?.bind
      (pmRegionOperationCompare { addrLow := pa, addrHigh := pa + 1, ops := .ram })) pmrOps.length =
      some none := by
    apply search_eq_none
    intro i hi
    have hmem := List.getElem_mem hi
    refine ⟨regionSign pa pmrOps[i], ?_, regionSign_ne_zero (hout _ hmem)⟩
    rw [List.getElem?_eq_getElem hi]
    exact pmRegionOperationCompare_eq_sign hpa (hnonempty _ hmem)
  unfold searchPmRegionCallback
  simp only
  rw [hnone]
  rfl

/-- In a sorted table a lookup below the last address is exact. -/
theorem searchPmRegionCallback_eq_find {pmrOps : List PmRegion} {pa : Word}
    (hsorted : SortedRegions pmrOps) (hpa : pa.toNat + 1 < 2 ^ 32) :
    searchPmRegionCallback pmrOps pa = some (pmrOps.find? fun pmr => Contains pmr pa) := by
  cases hfind : pmrOps.find? fun pmr => Contains pmr pa with
  | none =>
      apply searchPmRegionCallback_eq_none hsorted.nonempty hpa
      intro pmr hmem hcontains
      have hnot := List.find?_eq_none.mp hfind pmr hmem
      exact hnot (decide_eq_true hcontains)
  | some pmr =>
      have hfound := List.find?_some hfind
      have hcontains : Contains pmr pa := of_decide_eq_true hfound
      exact searchPmRegionCallback_complete hsorted (List.mem_of_find?_eq_some hfind)
        hcontains.1 hcontains.2

/-- The last address of the space trips the comparator on any table. -/
theorem searchPmRegionCallback_top {pmrOps : List PmRegion} (h : pmrOps ≠ []) :
    searchPmRegionCallback pmrOps 0xffffffff = none := by
  have hlen : 0 < pmrOps.length := List.length_pos_iff.mpr h
  have hcompare : ∀ pmr, pmRegionOperationCompare
      { addrLow := 0xffffffff, addrHigh := 0xffffffff + 1, ops := .ram } pmr = none := by
    intro pmr
    unfold pmRegionOperationCompare
    rw [if_pos (by decide)]
  have hsearch : search (fun i => pmrOps[i]?.bind (pmRegionOperationCompare
      { addrLow := 0xffffffff, addrHigh := 0xffffffff + 1, ops := .ram })) pmrOps.length = none := by
    unfold search
    rw [if_neg (by omega), searchLoop, if_pos (Nat.zero_le _), List.getElem?_eq_getElem hlen,
      Option.bind_some, hcompare]
  unfold searchPmRegionCallback
  simp only
  rw [hsearch]
  rfl

/-! ## One registration -/

theorem inPlace_of_ordered {pmr pmr' : PmRegion} (hpmr : pmr.addrLow < pmr.addrHigh)
    (hpmr' : pmr'.addrLow < pmr'.addrHigh) (h : pmr.addrHigh ≤ pmr'.addrLow) :
    BubbleSort.InPlace pmRegionOperationCompare pmr pmr' := by
  refine ⟨-1, by decide, ?_⟩
  unfold pmRegionOperationCompare
  simp only [BitVec.le_def, BitVec.lt_def] at hpmr hpmr' h ⊢
  rw [if_neg (by omega), if_neg (by omega), if_pos h]

theorem ordered_of_compare_pos {pmr pmr' : PmRegion} {c : Int} (hc : 0 < c)
    (h : pmRegionOperationCompare pmr pmr' = some c) : pmr'.addrHigh ≤ pmr.addrLow := by
  unfold pmRegionOperationCompare at h
  split_ifs at h with _ _ _ habove
  · rw [← Option.some.inj h] at hc
    exact absurd hc (by decide)
  · exact habove
  · rw [← Option.some.inj h] at hc
    exact absurd hc (by decide)

/-- A new region around an earlier one. -/
def Encloses (outer inner : PmRegion) : Prop :=
  outer.addrLow ≤ inner.addrLow ∧ inner.addrHigh ≤ outer.addrHigh

theorem ordered_of_inPlace {pmr new : PmRegion} (hnew : new.addrLow < new.addrHigh)
    (hout : ¬Contains pmr new.addrLow) (hencloses : ¬Encloses new pmr)
    (h : BubbleSort.InPlace pmRegionOperationCompare pmr new) : pmr.addrHigh ≤ new.addrLow := by
  obtain ⟨c, hc, hcompare⟩ := h
  unfold pmRegionOperationCompare at hcompare
  split_ifs at hcompare with _ _ hbelow _ hinside
  · exact hbelow
  · rw [← Option.some.inj hcompare] at hc
    exact absurd hc (by decide)
  · -- one of the two lies inside the other
    rcases hinside with ⟨hlow, hhigh⟩ | henclosed
    · exact absurd ⟨hlow, Std.lt_of_lt_of_le hnew hhigh⟩ hout
    · exact absurd henclosed hencloses

/-- A region between those below and those above it keeps a table sorted. -/
theorem sorted_insert {lower upper : List PmRegion} {new : PmRegion}
    (hsorted : SortedRegions (lower ++ upper)) (hnew : new.addrLow < new.addrHigh)
    (hlower : ∀ a ∈ lower.getLast?, a.addrHigh ≤ new.addrLow)
    (hupper : ∀ b ∈ upper, new.addrHigh ≤ b.addrLow) : SortedRegions (lower ++ new :: upper) := by
  obtain ⟨hordered, hordered', hcross⟩ := List.pairwise_append.mp hsorted.ordered
  have hbelow : ∀ a ∈ lower, a.addrHigh ≤ new.addrLow := by
    rcases List.eq_nil_or_concat' lower with rfl | ⟨init, last, rfl⟩
    · intro a ha
      cases ha
    · -- the last of them ends before the new one and after the others
      have hlast : last.addrHigh ≤ new.addrLow := hlower last List.getLast?_concat
      intro a ha
      rcases List.mem_append.mp ha with hmem | hmem
      · have hbefore : a.addrHigh ≤ last.addrLow :=
          (List.pairwise_append.mp hordered).2.2 a hmem last (by simp)
        have hlt : last.addrLow < last.addrHigh := hsorted.nonempty last (by simp)
        simp only [BitVec.le_def, BitVec.lt_def] at *
        omega
      · rw [List.mem_singleton.mp hmem]
        exact hlast
  constructor
  · intro pmr hmem
    rcases List.mem_append.mp hmem with hmem | hmem
    · exact hsorted.nonempty pmr (List.mem_append_left _ hmem)
    · rcases List.mem_cons.mp hmem with rfl | hmem
      · exact hnew
      · exact hsorted.nonempty pmr (List.mem_append_right _ hmem)
  · rw [List.pairwise_append, List.pairwise_cons]
    refine ⟨hordered, ⟨hupper, hordered'⟩, ?_⟩
    intro a ha b hb
    rcases List.mem_cons.mp hb with rfl | hb
    · exact hbelow a ha
    · exact hcross a ha b hb

/-- What a successful registration that encloses nothing does to a sorted table. -/
theorem sorted_register {pmrOps table : List PmRegion} {new : PmRegion}
    (hsorted : SortedRegions pmrOps) (hnew : new.addrLow < new.addrHigh)
    (hencloses : ∀ pmr ∈ pmrOps, ¬Encloses new pmr)
    (h : registerPmRegionOperation pmrOps new = some table) :
    SortedRegions table ∧ table.Perm (pmrOps ++ [new]) := by
  unfold registerPmRegionOperation at h
  split at h
  · rename_i hfree
    split_ifs at h with hroom
    split at h
    · cases h
    · rename_i sorted hsort
      split at h
      · cases h
        have hout : ∀ pmr ∈ pmrOps, ¬Contains pmr new.addrLow := by
          intro pmr hmem hin
          rw [searchPmRegionCallback_complete hsorted hmem hin.1 hin.2] at hfree
          cases hfree
        have hplace : pmrOps.Pairwise (BubbleSort.InPlace pmRegionOperationCompare) := by
          apply hsorted.ordered.imp_of_mem
          intro a b ha hb hab
          exact inPlace_of_ordered (hsorted.nonempty a ha) (hsorted.nonempty b hb) hab
        obtain ⟨lower, upper, rfl, rfl, hupper, hlower⟩ := BubbleSort.sort_concat hplace hsort
        constructor
        · apply sorted_insert hsorted hnew
          · intro a ha
            have hmem : a ∈ lower ++ upper := List.mem_append_left _ (List.mem_of_getLast? ha)
            exact ordered_of_inPlace hnew (hout a hmem) (hencloses a hmem) (hlower a ha)
          · intro b hb
            obtain ⟨c, hc, hcompare⟩ := hupper b hb
            exact ordered_of_compare_pos hc hcompare
        · rw [List.append_assoc]
          exact List.Perm.append_left lower (List.perm_append_singleton new upper).symm
      · cases h
  · cases h

/-! ## Whole sequences -/

/-- No region of a sequence encloses an earlier one. -/
abbrev NoEnclosure (pmrs : List PmRegion) : Prop :=
  pmrs.Pairwise fun earlier later => ¬Encloses later earlier

theorem sorted_foldlM {done pmrs start table : List PmRegion} (hstart : SortedRegions start)
    (hperm : start.Perm done) (hnonempty : ∀ pmr ∈ pmrs, pmr.addrLow < pmr.addrHigh)
    (henclosure : NoEnclosure (done ++ pmrs))
    (h : pmrs.foldlM registerPmRegionOperation start = some table) :
    SortedRegions table ∧ table.Perm (done ++ pmrs) := by
  induction pmrs generalizing done start with
  | nil =>
      cases h
      rw [List.append_nil]
      exact ⟨hstart, hperm⟩
  | cons new rest ih =>
      rw [List.foldlM_cons] at h
      obtain ⟨next, hnext, hrest⟩ := Option.bind_eq_some_iff.mp h
      have hcross := (List.pairwise_append.mp henclosure).2.2
      obtain ⟨hsorted, hperm'⟩ := sorted_register hstart (hnonempty new (by simp))
        (fun pmr hmem => hcross pmr (hperm.mem_iff.mp hmem) new (by simp)) hnext
      rw [List.append_cons] at henclosure ⊢
      apply ih hsorted
      · exact hperm'.trans (hperm.append_right [new])
      · intro pmr hmem
        exact hnonempty pmr (List.mem_cons_of_mem _ hmem)
      · exact henclosure
      · exact hrest

theorem sorted_registerPmRegions {registered table : List PmRegion}
    (hnonempty : ∀ pmr ∈ registered, pmr.addrLow < pmr.addrHigh)
    (henclosure : NoEnclosure registered) (h : registerPmRegions registered = some table) :
    SortedRegions table ∧ table.Perm registered := by
  have hempty : SortedRegions [] := by
    refine ⟨?_, List.Pairwise.nil⟩
    intro pmr hmem
    cases hmem
  have hsorted : SortedRegions table ∧ table.Perm ([] ++ registered) :=
    sorted_foldlM hempty (List.Perm.refl []) hnonempty henclosure h
  rwa [List.nil_append] at hsorted

/-- A table is a sorted, disjoint arrangement of the registered regions, exact at `pa`. -/
structure ExactMap (registered table : List PmRegion) (pa : Word) : Prop where
  same : table.Perm registered
  sorted : table.Pairwise fun pmr pmr' => pmr.addrHigh ≤ pmr'.addrLow
  found : ∀ pmr ∈ registered, Contains pmr pa →
    searchPmRegionCallback table pa = some (some pmr)
  missed : (∀ pmr ∈ registered, ¬Contains pmr pa) → searchPmRegionCallback table pa = some none

theorem noEnclosure_of_exactMap {registered table : List PmRegion} {pa : Word}
    (hnonempty : ∀ pmr ∈ registered, pmr.addrLow < pmr.addrHigh)
    (h : ExactMap registered table pa) : NoEnclosure registered := by
  have hsymm : ∀ {a b : PmRegion}, a.addrHigh ≤ b.addrLow ∨ b.addrHigh ≤ a.addrLow →
      b.addrHigh ≤ a.addrLow ∨ a.addrHigh ≤ b.addrLow := fun hab => hab.symm
  have hdisjoint : registered.Pairwise fun a b =>
      a.addrHigh ≤ b.addrLow ∨ b.addrHigh ≤ a.addrLow := by
    rw [← h.same.pairwise_iff hsymm]
    exact h.sorted.imp fun hab => .inl hab
  apply hdisjoint.imp_of_mem
  intro a b ha hb hab hencloses
  have ha' := hnonempty a ha
  have hb' := hnonempty b hb
  obtain ⟨hlow, hhigh⟩ := hencloses
  simp only [BitVec.le_def, BitVec.lt_def] at *
  omega

theorem toNat_add_one_lt {pa : Word} (h : pa ≠ 0xffffffff) : pa.toNat + 1 < 2 ^ 32 := by
  have hlt := pa.isLt
  have hne : pa.toNat ≠ 0xffffffff := fun heq => h (BitVec.eq_of_toNat_eq heq)
  omega

/--
The table is an exact interval map exactly when no region encloses an earlier
one and the address is not the last of the space.
-/
theorem table_exact_iff {registered table : List PmRegion}
    (hnonempty : ∀ pmr ∈ registered, pmr.addrLow < pmr.addrHigh)
    (h : registerPmRegions registered = some table) (pa : Word) :
    ExactMap registered table pa ↔
      NoEnclosure registered ∧ (pa ≠ 0xffffffff ∨ registered = []) := by
  constructor
  · intro hexact
    refine ⟨noEnclosure_of_exactMap hnonempty hexact, ?_⟩
    by_contra hboth
    obtain ⟨hpa, hregistered⟩ := not_or.mp hboth
    have htop : searchPmRegionCallback table pa = none := by
      rw [not_not.mp hpa]
      apply searchPmRegionCallback_top
      rintro rfl
      exact hregistered hexact.same.nil_eq.symm
    have hmissed : searchPmRegionCallback table pa = some none := by
      apply hexact.missed
      intro pmr _ hcontains
      have hlt := pmr.addrHigh.isLt
      have hhigh := hcontains.2
      rw [not_not.mp hpa, BitVec.lt_def] at hhigh
      have hvalue : (0xffffffff : Word).toNat = 0xffffffff := rfl
      omega
    rw [htop] at hmissed
    cases hmissed
  · rintro ⟨henclosure, hpa⟩
    obtain ⟨hsorted, hperm⟩ := sorted_registerPmRegions hnonempty henclosure h
    refine ⟨hperm, hsorted.ordered, ?_, ?_⟩
    · intro pmr hmem hcontains
      exact searchPmRegionCallback_complete hsorted (hperm.mem_iff.mpr hmem) hcontains.1
        hcontains.2
    · intro hout
      rcases hpa with hpa | rfl
      · apply searchPmRegionCallback_eq_none hsorted.nonempty (toNat_add_one_lt hpa)
        intro pmr hmem
        exact hout pmr (hperm.mem_iff.mp hmem)
      · rw [hperm.eq_nil]
        rfl

/-- The memory map of the platform, in the order its parts are registered. -/
def platformSequence : List PmRegion :=
  [ { addrLow := 0x00000000, addrHigh := 0x00400000, ops := .bootrom },
    { addrLow := 0x80000000, addrHigh := 0x90000000, ops := .ram },
    { addrLow := 0x02000000, addrHigh := 0x02010000, ops := .clint },
    { addrLow := 0x0c000000, addrHigh := 0x10000000, ops := .plic },
    { addrLow := 0x10000000, addrHigh := 0x10000100, ops := .uart },
    { addrLow := 0x00400000, addrHigh := 0x00401000, ops := .syscon } ]

example : registerPmRegions platformSequence = some platformRegions := by decide +kernel

theorem table_exact_platform :
    ∃ table, registerPmRegions platformSequence = some table ∧
      ExactMap platformSequence table 0x0c201004 := by
  have hnonempty : ∀ pmr ∈ platformSequence, pmr.addrLow < pmr.addrHigh := by decide
  have henclosure : NoEnclosure platformSequence := by
    unfold NoEnclosure Encloses
    decide
  obtain ⟨table, htable⟩ := Option.isSome_iff_exists.mp
    (show (registerPmRegions platformSequence).isSome by decide +kernel)
  exact ⟨table, htable, (table_exact_iff hnonempty htable _).mpr ⟨henclosure, .inl (by decide)⟩⟩

/-- A region may be registered around an earlier one. -/
theorem enclosing_region_registered :
    ¬∀ (registered table : List PmRegion) (pa : Word),
      (∀ pmr ∈ registered, pmr.addrLow < pmr.addrHigh) →
      registerPmRegions registered = some table → ExactMap registered table pa := by
  intro h
  let registered : List PmRegion :=
    [ { addrLow := 0x2000, addrHigh := 0x3000, ops := .uart },
      { addrLow := 0x1000, addrHigh := 0x4000, ops := .ram } ]
  have hsorted := (h registered registered 0x1000 (by decide) (by decide +kernel)).sorted
  exact absurd hsorted (by decide)

end Zelda.Proofs.RegionTable
