import Zelda.Lib.BinarySearch
import Zelda.Vmm.ArrayMacros
/-!
# The array macros are correct

Every access of `SEARCH` and `INSERTION_SORT` is inside the array, whatever the
comparator returns.  For a total preorder the one finds an equal element of an
ascending array and the other keeps the array ascending.
-/

namespace Zelda.Proofs.ArrayMacros

open Zelda.Vmm.ArrayMacros
open Zelda.Lib

/-! ## Orders -/

section Macros

variable {α : Type}

/-- The signs of the comparator are those of a total preorder on these elements. -/
structure TotalPreorder (comp : α → α → Int) (elements : List α) : Prop where
  swap : ∀ a ∈ elements, ∀ b ∈ elements, comp a b < 0 ↔ 0 < comp b a
  trans : ∀ a ∈ elements, ∀ b ∈ elements, ∀ c ∈ elements,
    comp a b ≤ 0 → comp b c ≤ 0 → comp a c ≤ 0

/-- No element is above a later one. -/
def Ascending (comp : α → α → Int) (elements : List α) : Prop :=
  elements.Pairwise fun a b => comp a b ≤ 0

section Order

variable {comp : α → α → Int} {elements : List α} {a b c : α}

theorem TotalPreorder.total (h : TotalPreorder comp elements) (ha : a ∈ elements)
    (hb : b ∈ elements) (hab : ¬comp a b ≤ 0) : comp b a ≤ 0 := by
  have := h.swap b hb a ha
  omega

theorem TotalPreorder.not_lt (h : TotalPreorder comp elements) (ha : a ∈ elements)
    (hb : b ∈ elements) (hab : ¬comp a b < 0) : comp b a ≤ 0 := by
  have := h.swap a ha b hb
  omega

theorem TotalPreorder.refl (h : TotalPreorder comp elements) (ha : a ∈ elements) :
    comp a a ≤ 0 := by
  have := h.swap a ha a ha
  omega

/-- What is below an element that is not above another is below that one too. -/
theorem TotalPreorder.lt_of_lt_of_le (h : TotalPreorder comp elements) (ha : a ∈ elements)
    (hb : b ∈ elements) (hc : c ∈ elements) (hab : comp a b < 0) (hbc : comp b c ≤ 0) :
    comp a c < 0 := by
  by_contra hac
  have hca := h.not_lt ha hc hac
  have hba := h.trans b hb c hc a ha hbc hca
  have := h.swap a ha b hb
  omega

theorem TotalPreorder.of_subset {elements' : List α} (h : TotalPreorder comp elements)
    (hsub : elements' ⊆ elements) : TotalPreorder comp elements' where
  swap a ha b hb := h.swap a (hsub ha) b (hsub hb)
  trans a ha b hb c hc := h.trans a (hsub ha) b (hsub hb) c (hsub hc)

theorem Ascending.le_of_le (hs : Ascending comp elements) (h : TotalPreorder comp elements)
    {i j : Nat} (hij : i ≤ j) (hj : j < elements.length) : comp elements[i] elements[j] ≤ 0 := by
  rcases Nat.lt_or_eq_of_le hij with hlt | rfl
  · exact List.pairwise_iff_getElem.mp hs i j (by omega) hj hlt
  · exact h.refl (List.getElem_mem hj)

end Order

/-! ## Accesses -/

section Access

variable {base : List α} {comp : α → α → Int} {target : α}

@[simp] theorem elem_natCast (base : List α) (i : Nat) : elem base i = base[i]? := by
  simp [elem]

theorem elem_of_lt {i : Nat} (h : i < base.length) : elem base i = some base[i] := by
  rw [elem_natCast, List.getElem?_eq_getElem h]

theorem setElem_of_lt {i : Nat} (h : i < base.length) (value : α) :
    setElem base i value = some (base.set i value) := by
  simp [setElem, h]

/-- The sign the search sees at an index. -/
def probe (base : List α) (comp : α → α → Int) (target : α) (i : Nat) : Option Int :=
  base[i]?.map fun element => comp target element

theorem probe_of_lt {i : Nat} (h : i < base.length) :
    probe base comp target i = some (comp target base[i]) := by
  simp [probe, h]

/-- The macro's midpoint is that of the index interval. -/
theorem mid_natCast (lo hi : Nat) : ((lo : Int) + hi) / 2 = ((lo + hi) / 2 : Nat) := by
  omega

/-- One round of `SEARCH` on indices inside the array. -/
theorem searchLoop_step {lo hi mid : Nat} (hlo : lo < base.length) (hhi : hi < base.length)
    (hle : lo ≤ hi) (hmid : mid = (lo + hi) / 2) (hm : mid < base.length) :
    searchLoop base comp target lo hi =
      if comp target base[lo] = 0 then some (some base[lo])
      else if comp target base[hi] = 0 then some (some base[hi])
      else if mid = lo ∨ mid = hi then some none
      else if comp target base[mid] < 0 then searchLoop base comp target lo mid
      else searchLoop base comp target mid hi := by
  rw [searchLoop, if_pos (Int.ofNat_le.mpr hle), elem_of_lt hlo, elem_of_lt hhi]
  simp only [mid_natCast, ← hmid, elem_of_lt hm, Option.bind_eq_bind, Option.bind_some, Int.natCast_inj]

/-- `SEARCH` is the search over its probes; none of its accesses is outside. -/
theorem searchLoop_eq {lo hi : Nat} (hhi : hi < base.length) :
    searchLoop base comp target lo hi =
      (BinarySearch.searchLoop (probe base comp target) lo hi).map
        fun found => found.bind fun i => base[i]? := by
  fun_induction BinarySearch.searchLoop (probe base comp target) lo hi with
  | case1 lo hi hle hlow => simp [probe_of_lt (show lo < base.length by omega)] at hlow
  | case3 lo hi hle low hlow hne hhigh => simp [probe_of_lt hhi] at hhigh
  | case6 lo hi hle low hlow hne high hhigh hne' mid hmid hmiddle =>
      simp [probe_of_lt (show mid < base.length by omega)] at hmiddle
  | case2 lo hi hle hlow =>
      have hlo : lo < base.length := by omega
      rw [probe_of_lt hlo, Option.some.injEq] at hlow
      rw [searchLoop_step hlo hhi hle rfl (by omega), if_pos hlow]
      simp [hlo]
  | case4 lo hi hle low hlow hne hhigh =>
      have hlo : lo < base.length := by omega
      rw [probe_of_lt hlo, Option.some.injEq] at hlow
      rw [probe_of_lt hhi, Option.some.injEq] at hhigh
      rw [searchLoop_step hlo hhi hle rfl (by omega), if_neg (by omega), if_pos hhigh]
      simp [hhi]
  | case5 lo hi hle low hlow hne high hhigh hne' mid hmid =>
      have hlo : lo < base.length := by omega
      rw [probe_of_lt hlo, Option.some.injEq] at hlow
      rw [probe_of_lt hhi, Option.some.injEq] at hhigh
      rw [searchLoop_step hlo hhi hle rfl (by omega), if_neg (by omega), if_neg (by omega),
        if_pos hmid]
      rfl
  | case7 lo hi hle low hlow hne high hhigh hne' mid hmid middle hmiddle hneg ih =>
      have hlo : lo < base.length := by omega
      have hm : mid < base.length := by omega
      rw [probe_of_lt hlo, Option.some.injEq] at hlow
      rw [probe_of_lt hhi, Option.some.injEq] at hhigh
      rw [probe_of_lt hm, Option.some.injEq] at hmiddle
      rw [← hmiddle] at hneg
      rw [searchLoop_step hlo hhi hle rfl hm, if_neg (by omega), if_neg (by omega), if_neg hmid,
        if_pos hneg]
      exact ih hm
  | case8 lo hi hle low hlow hne high hhigh hne' mid hmid middle hmiddle hneg ih =>
      have hlo : lo < base.length := by omega
      have hm : mid < base.length := by omega
      rw [probe_of_lt hlo, Option.some.injEq] at hlow
      rw [probe_of_lt hhi, Option.some.injEq] at hhigh
      rw [probe_of_lt hm, Option.some.injEq] at hmiddle
      rw [← hmiddle] at hneg
      rw [searchLoop_step hlo hhi hle rfl hm, if_neg (by omega), if_neg (by omega), if_neg hmid,
        if_neg hneg]
      exact ih hhi
  | case9 lo hi hle =>
      rw [searchLoop, if_neg (by omega)]
      rfl

theorem search_eq (base : List α) (comp : α → α → Int) (target : α) :
    search base comp target =
      (BinarySearch.search (probe base comp target) base.length).map
        fun found => found.bind fun i => base[i]? := by
  unfold search BinarySearch.search
  split
  · rename_i hempty
    rw [hempty, searchLoop, if_neg (by decide)]
    rfl
  · rw [← searchLoop_eq (by omega)]
    congr 1
    omega

/-! ## Insertion -/

/-- The target against an element. -/
def targetFirst (base : List α) (comp : α → α → Int) (target : α) (i : Nat) : Int :=
  (base[i]?.map fun element => comp target element).getD 0

/-- An element against the target. -/
def targetLast (base : List α) (comp : α → α → Int) (target : α) (i : Nat) : Int :=
  (base[i]?.map fun element => comp element target).getD 0

theorem targetFirst_of_lt {i : Nat} (h : i < base.length) :
    targetFirst base comp target i = comp target base[i] := by
  simp [targetFirst, h]

theorem targetLast_of_lt {i : Nat} (h : i < base.length) :
    targetLast base comp target i = comp base[i] target := by
  simp [targetLast, h]

/-- One round of `INSERTION_SORT` on indices inside the array. -/
theorem insertionLoop_step {lo hi mid : Nat} (hlo : lo < base.length) (hhi : hi < base.length)
    (hle : lo ≤ hi) (hmid : mid = (lo + hi) / 2) (hm : mid < base.length) :
    insertionLoop base comp target lo hi =
      if targetFirst base comp target lo ≤ 0 then some (lo : Int)
      else if targetLast base comp target hi ≤ 0 then some (hi + 1 : Int)
      else if mid = lo ∨ mid = hi then some (mid + 1 : Int)
      else if targetFirst base comp target mid < 0 then insertionLoop base comp target lo mid
      else insertionLoop base comp target mid hi := by
  rw [insertionLoop, if_pos (Int.ofNat_le.mpr hle), elem_of_lt hlo, elem_of_lt hhi]
  simp only [mid_natCast, ← hmid, elem_of_lt hm, Option.bind_eq_bind, Option.bind_some,
    Int.natCast_inj, targetFirst_of_lt hlo, targetLast_of_lt hhi, targetFirst_of_lt hm]

/-- `INSERTION_SORT` computes the insertion position; none of its accesses is outside. -/
theorem insertionLoop_eq {lo hi : Nat} (hhi : hi < base.length) :
    insertionLoop base comp target lo hi =
      some ((BinarySearch.insertLoop (targetFirst base comp target) (targetLast base comp target)
        lo hi : Nat) : Int) := by
  fun_induction BinarySearch.insertLoop (targetFirst base comp target)
      (targetLast base comp target) lo hi with
  | case1 lo hi hle hc =>
      rw [insertionLoop_step (by omega) hhi hle rfl (by omega), if_pos hc]
  | case2 lo hi hle hc hd =>
      rw [insertionLoop_step (by omega) hhi hle rfl (by omega), if_neg hc, if_pos hd]
      rfl
  | case3 lo hi hle hc hd mid hmid =>
      rw [insertionLoop_step (by omega) hhi hle rfl (by omega), if_neg hc, if_neg hd, if_pos hmid]
      rfl
  | case4 lo hi hle hc hd mid hmid hneg ih =>
      rw [insertionLoop_step (by omega) hhi hle rfl (by omega), if_neg hc, if_neg hd, if_neg hmid,
        if_pos hneg]
      exact ih (by omega)
  | case5 lo hi hle hc hd mid hmid hneg ih =>
      rw [insertionLoop_step (by omega) hhi hle rfl (by omega), if_neg hc, if_neg hd, if_neg hmid,
        if_neg hneg]
      exact ih hhi
  | case6 lo hi hle =>
      rw [insertionLoop, if_neg (by omega)]
      rfl

/-- The elements from `move` on go up by one; the slot at `move` keeps what it held. -/
theorem moveLoop_spec {idx move : Nat} (hle : move ≤ idx) (hidx : idx < base.length) :
    ∃ moved, moveLoop base idx move = some moved ∧ moved.length = base.length ∧
      ∀ i, moved[i]? = if move < i ∧ i ≤ idx then base[i - 1]? else base[i]? := by
  induction idx generalizing base with
  | zero =>
      refine ⟨base, ?_, rfl, ?_⟩
      · rw [moveLoop, if_neg (by omega)]
      · intro i
        rw [if_neg (by omega)]
  | succ k ih =>
      by_cases hstop : move = k + 1
      · refine ⟨base, ?_, rfl, ?_⟩
        · rw [moveLoop, if_neg (by omega)]
        · intro i
          rw [if_neg (by omega)]
      · have hk : k < base.length := by omega
        have hprevious : elem base (((k + 1 : Nat) : Int) - 1) = some base[k] := by
          rw [← elem_of_lt hk]
          congr 1
          omega
        obtain ⟨moved, hmoved, hlength, hget⟩ :=
          ih (show move ≤ k by omega) (show k < (base.set (k + 1) base[k]).length by simpa using hk)
        refine ⟨moved, ?_, by simpa using hlength, ?_⟩
        · rw [moveLoop, if_pos (by omega), hprevious]
          simp only [Option.bind_eq_bind, Option.bind_some, setElem_of_lt hidx]
          rw [← hmoved]
          congr 1
          omega
        · intro i
          rw [hget i, List.getElem?_set, List.getElem?_set]
          by_cases hi : i = k + 1
          · subst hi
            simp [hidx, hk]
            omega
          · rw [if_neg (Ne.symm hi)]
            by_cases hin : move < i ∧ i ≤ k
            · rw [if_pos hin, if_neg (by omega), if_pos (by omega)]
            · rw [if_neg hin, if_neg (by omega)]

/-- Where `INSERTION_SORT` puts the last element of an array. -/
def position (comp : α → α → Int) (init : List α) (target : α) : Nat :=
  BinarySearch.insertPosition (targetFirst (init ++ [target]) comp target)
    (targetLast (init ++ [target]) comp target) init.length

theorem position_le (comp : α → α → Int) (init : List α) (target : α) :
    position comp init target ≤ init.length :=
  BinarySearch.insertPosition_le _ _ _

theorem insertionLoop_position (init : List α) :
    insertionLoop (init ++ [target]) comp target 0 ((init.length : Int) - 1) =
      some (position comp init target : Int) := by
  unfold position BinarySearch.insertPosition
  split
  · rename_i hempty
    rw [hempty, insertionLoop, if_neg (by decide)]
    rfl
  · have hhi : init.length - 1 < (init ++ [target]).length := by
      rw [List.length_append, List.length_singleton]
      omega
    rw [← insertionLoop_eq hhi]
    congr 1
    omega

/-- `INSERTION_SORT` moves the last element to its position and touches nothing outside. -/
theorem insertionSort_eq (comp : α → α → Int) (init : List α) (target : α) :
    insertionSort (init ++ [target]) comp =
      some (init.insertIdx (position comp init target) target) := by
  have hlength : (init ++ [target]).length = init.length + 1 := by simp
  have hlast : (((init ++ [target]).length : Nat) : Int) - 1 = init.length := by omega
  have hhigh : (((init ++ [target]).length : Nat) : Int) - 2 = (init.length : Int) - 1 := by omega
  have htarget : elem (init ++ [target]) (init.length : Int) = some target := by simp
  have hp := position_le comp init target
  unfold insertionSort
  rw [if_neg (by omega), hlast, hhigh, htarget]
  simp only [Option.bind_eq_bind, Option.bind_some, insertionLoop_position]
  by_cases hlt : position comp init target < init.length
  · rw [if_pos (by omega)]
    have hidx : init.length < (init ++ [target]).length := by omega
    obtain ⟨moved, hmoved, hsame, hget⟩ := moveLoop_spec hp hidx
    rw [hmoved, Option.bind_some, setElem_of_lt (by omega)]
    congr 1
    apply List.ext_getElem?
    intro i
    rw [List.getElem?_set, List.getElem?_insertIdx, hget i]
    rcases Nat.lt_trichotomy i (position comp init target) with hi | hi | hi
    · rw [if_neg (by omega), if_neg (by omega), if_pos hi]
      exact List.getElem?_append_left (by omega)
    · rw [if_pos hi.symm, if_pos (by omega), if_neg (by omega), if_pos hi, if_pos (by omega)]
    · rw [if_neg (show ¬position comp init target = i by omega),
        if_neg (show ¬i < position comp init target by omega),
        if_neg (show ¬i = position comp init target by omega)]
      by_cases hin : i ≤ init.length
      · rw [if_pos ⟨hi, hin⟩]
        exact List.getElem?_append_left (by omega)
      · rw [if_neg (by omega), List.getElem?_eq_none (by omega), List.getElem?_eq_none (by omega)]
  · have heq : position comp init target = init.length := by omega
    rw [if_neg (by omega), heq, List.insertIdx_length_self]

end Access

/-! ## Correctness -/

section Correct

variable {comp : α → α → Int}

theorem targetFirst_append {init : List α} {target : α} {i : Nat} (h : i < init.length) :
    targetFirst (init ++ [target]) comp target i = comp target init[i] := by
  rw [targetFirst, List.getElem?_append_left h, List.getElem?_eq_getElem h]
  rfl

theorem targetLast_append {init : List α} {target : α} {i : Nat} (h : i < init.length) :
    targetLast (init ++ [target]) comp target i = comp init[i] target := by
  rw [targetLast, List.getElem?_append_left h, List.getElem?_eq_getElem h]
  rfl

theorem ascending_signs {init : List α} {target : α}
    (h : TotalPreorder comp (init ++ [target])) (hs : Ascending comp init) :
    BinarySearch.Ascending (targetFirst (init ++ [target]) comp target)
      (targetLast (init ++ [target]) comp target) init.length := by
  have hinit : TotalPreorder comp init := h.of_subset (List.subset_append_left _ _)
  have hmem : ∀ i (hi : i < init.length), init[i] ∈ init ++ [target] := fun i hi =>
    List.mem_append_left _ (List.getElem_mem hi)
  have htarget : target ∈ init ++ [target] := List.mem_append_right _ List.mem_cons_self
  constructor
  · intro i j hij hj hle
    rw [targetLast_append hj] at hle
    rw [targetLast_append (by omega)]
    exact h.trans _ (hmem i (by omega)) _ (hmem j hj) _ htarget (hs.le_of_le hinit hij hj) hle
  · intro i j hij hj hle
    rw [targetFirst_append (by omega)] at hle
    rw [targetFirst_append hj]
    exact h.trans _ htarget _ (hmem i (by omega)) _ (hmem j hj) hle (hs.le_of_le hinit hij hj)
  · intro i hi hnot
    rw [targetFirst_append hi] at hnot
    rw [targetLast_append hi]
    exact h.not_lt htarget (hmem i hi) hnot
  · intro i hi hnot
    rw [targetLast_append hi] at hnot
    rw [targetFirst_append hi]
    exact h.total (hmem i hi) htarget hnot

theorem ascending_insertIdx {init : List α} {target : α}
    (h : TotalPreorder comp (init ++ [target])) (hs : Ascending comp init) :
    Ascending comp (init.insertIdx (position comp init target) target) := by
  obtain ⟨hbelow, habove⟩ := BinarySearch.insertPosition_bounds (ascending_signs h hs)
  apply BinarySearch.pairwise_insertIdx hs (position_le comp init target)
  · intro i hi hip
    have hle := hbelow i hip
    rw [targetLast_append hi] at hle
    exact hle
  · intro i hi hpi
    have hle := habove i hpi hi
    rw [targetFirst_append hi] at hle
    exact hle

theorem signsAscending {base : List α} {target : α} (h : TotalPreorder comp (target :: base))
    (hs : Ascending comp base) :
    BinarySearch.SignsAscending (fun i => (probe base comp target i).getD 0) base.length := by
  intro i j hij hj
  have hi : i < base.length := by omega
  have hle : comp base[i] base[j] ≤ 0 := List.pairwise_iff_getElem.mp hs i j hi hj hij
  have htarget : target ∈ target :: base := List.mem_cons_self
  have hmemi : base[i] ∈ target :: base := List.mem_cons_of_mem _ (List.getElem_mem hi)
  have hmemj : base[j] ∈ target :: base := List.mem_cons_of_mem _ (List.getElem_mem hj)
  simp only [probe_of_lt hi, probe_of_lt hj, Option.getD_some]
  exact ⟨fun hlt => h.lt_of_lt_of_le htarget hmemi hmemj hlt hle,
    fun hlt => h.trans _ htarget _ hmemi _ hmemj hlt hle⟩

/-- `SEARCH` returns in any case, and what it returns compares equal to the target. -/
theorem search_returns (base : List α) (comp : α → α → Int) (target : α) :
    ∃ found, search base comp target = some found ∧
      ∀ element, found = some element → element ∈ base ∧ comp target element = 0 := by
  have hsome : (BinarySearch.search (probe base comp target) base.length).isSome := by
    apply BinarySearch.search_isSome
    intro i hi
    rw [probe_of_lt hi]
    rfl
  obtain ⟨found, hfound⟩ := Option.isSome_iff_exists.mp hsome
  refine ⟨_, by rw [search_eq, hfound]; rfl, ?_⟩
  intro element helement
  cases found with
  | none => cases helement
  | some i =>
      obtain ⟨hi, hzero⟩ := BinarySearch.search_sound hfound
      rw [probe_of_lt hi, Option.some.injEq] at hzero
      change base[i]? = some element at helement
      rw [List.getElem?_eq_getElem hi, Option.some.injEq] at helement
      rw [← helement]
      exact ⟨List.getElem_mem hi, hzero⟩

/-- In an ascending array `SEARCH` does not miss an equal element. -/
theorem search_isSome_of_mem {base : List α} {target element : α}
    (h : TotalPreorder comp (target :: base)) (hs : Ascending comp base) (hmem : element ∈ base)
    (hzero : comp target element = 0) : search base comp target ≠ some none := by
  intro hnone
  obtain ⟨i, hi, rfl⟩ := List.getElem_of_mem hmem
  have hmiss : BinarySearch.search (probe base comp target) base.length = some none := by
    rw [search_eq] at hnone
    obtain ⟨found, hfound, hbind⟩ := Option.map_eq_some_iff.mp hnone
    cases found with
    | none => exact hfound
    | some k =>
        obtain ⟨hk, -⟩ := BinarySearch.search_sound hfound
        simp [hk] at hbind
  apply BinarySearch.ne_zero_of_search _ (signsAscending h hs) hmiss i hi
  · simp [probe_of_lt hi, hzero]
  · intro k hk
    simp [probe_of_lt hk]

end Correct

/--
Whatever the comparator, both macros return without an access outside of the
array.  For a total preorder `INSERTION_SORT` completes an ascending array to an
ascending permutation, and `SEARCH` on an ascending array returns an element
equal to the target exactly if there is one.
-/
theorem array_macros_correct {α : Type} (comp : α → α → Int) (base : List α) :
    (∃ sorted, insertionSort base comp = some sorted ∧
      (TotalPreorder comp base → Ascending comp base.dropLast →
        Ascending comp sorted ∧ sorted.Perm base)) ∧
    ∀ target, ∃ found, search base comp target = some found ∧
      (TotalPreorder comp (target :: base) → Ascending comp base →
        (∀ element, found = some element → element ∈ base ∧ comp target element = 0) ∧
        (found = none → ∀ element ∈ base, comp target element ≠ 0)) := by
  constructor
  · rcases List.eq_nil_or_concat base with rfl | ⟨init, last, rfl⟩
    · exact ⟨[], rfl, fun _ hs => ⟨hs, .nil⟩⟩
    · rw [List.concat_eq_append, List.dropLast_concat]
      refine ⟨_, insertionSort_eq comp init last, fun h hs => ⟨ascending_insertIdx h hs, ?_⟩⟩
      have hperm := List.perm_insertIdx last init (position_le comp init last)
      exact hperm.trans (List.perm_append_singleton last init).symm
  · intro target
    obtain ⟨found, hfound, hsound⟩ := search_returns base comp target
    refine ⟨found, hfound, fun h hs => ⟨hsound, ?_⟩⟩
    rintro rfl element hmem hzero
    exact search_isSome_of_mem h hs hmem hzero hfound

/-- Integers by their difference, with two equal elements. -/
theorem array_macros_correct_integers :
    ∃ sorted, insertionSort [1, 3, 3, 2] (fun a b : Int => a - b) = some sorted ∧
      Ascending (fun a b : Int => a - b) sorted ∧ sorted.Perm [1, 3, 3, 2] := by
  have horder : TotalPreorder (fun a b : Int => a - b) [1, 3, 3, 2] := by
    constructor
    · intro a _ b _
      constructor <;> intro h <;> omega
    · intro a _ b _ c _ hab hbc
      omega
  have hinit : Ascending (fun a b : Int => a - b) [1, 3, 3] := by
    unfold Ascending
    decide
  obtain ⟨⟨sorted, hsort, hspec⟩, -⟩ :=
    array_macros_correct (fun a b : Int => a - b) [1, 3, 3, 2]
  exact ⟨sorted, hsort, hspec horder hinit⟩

end Macros

end Zelda.Proofs.ArrayMacros
