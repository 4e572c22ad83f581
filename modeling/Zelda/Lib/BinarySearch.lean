import Mathlib.Tactic.Common
import Mathlib.Data.List.InsertIdx
import Mathlib.Order.Basic
/-!
# Binary search and binary insertion over a comparator

The two array algorithms of `search.h` and `sort.h`.  An array is seen through
the probe `c i`, the sign of comparing the target with element `i`; a probe
that trips an assertion is `none`.  Correctness needs no order on the elements
themselves, only that the signs seen by this target are arranged as they would
be in a sorted array.
-/

namespace Zelda.Lib.BinarySearch

/-! ## Search -/

/-- The loop of `SEARCH` on the index interval `[lo, hi]`. -/
def searchLoop (c : Nat → Option Int) (lo hi : Nat) : Option (Option Nat) :=
  if lo ≤ hi then
    match c lo with
    | none => none
    | some low =>
        if low = 0 then some (some lo)
        else
          match c hi with
          | none => none
          | some high =>
              if high = 0 then some (some hi)
              else
                let mid := (lo + hi) / 2
                if mid = lo ∨ mid = hi then some none
                else
                  match c mid with
                  | none => none
                  | some middle =>
                      if middle < 0 then searchLoop c lo mid else searchLoop c mid hi
  else
    some none
  termination_by hi - lo
  decreasing_by all_goals omega

/-- `SEARCH(type, base, num, comp, target)`: the outer `none` is a failed assertion. -/
def search (c : Nat → Option Int) (num : Nat) : Option (Option Nat) :=
  if num = 0 then some none else searchLoop c 0 (num - 1)

/-- Signs as a target sees them in a sorted array: first positive, then negative. -/
def SignsSorted (c : Nat → Int) (num : Nat) : Prop :=
  ∀ i j, i < j → j < num → c i ≤ 0 → c j < 0

section Search

variable {c : Nat → Option Int}

theorem searchLoop_sound {lo hi i : Nat} (h : searchLoop c lo hi = some (some i)) :
    lo ≤ i ∧ i ≤ hi ∧ c i = some 0 := by
  fun_induction searchLoop c lo hi with
  | case1 | case3 | case5 | case6 | case9 => simp at h
  | case2 lo hi hle hlow =>
      obtain rfl : lo = i := by simpa using h
      exact ⟨Nat.le_refl _, hle, hlow⟩
  | case4 lo hi hle low hlow hne hhigh =>
      obtain rfl : hi = i := by simpa using h
      exact ⟨hle, Nat.le_refl _, hhigh⟩
  | case7 lo hi hle low hlow hne high hhigh hne' mid hmid middle hc hneg ih =>
      obtain ⟨hlo, hhi, hi0⟩ := ih h
      exact ⟨hlo, by omega, hi0⟩
  | case8 lo hi hle low hlow hne high hhigh hne' mid hmid middle hc hneg ih =>
      obtain ⟨hlo, hhi, hi0⟩ := ih h
      exact ⟨by omega, hhi, hi0⟩

/-- A search never trips an assertion if no probe does. -/
theorem searchLoop_isSome {lo hi : Nat} (hc : ∀ i, i ≤ hi → (c i).isSome) :
    (searchLoop c lo hi).isSome := by
  fun_induction searchLoop c lo hi with
  | case1 lo hi hle hlow => simpa [hlow] using hc lo hle
  | case3 lo hi hle low hlow hne hhigh => simpa [hhigh] using hc hi (Nat.le_refl _)
  | case6 lo hi hle low hlow hne high hhigh hne' mid hmid hmiddle =>
      simpa [hmiddle] using hc mid (by omega)
  | case2 | case4 | case5 | case9 => rfl
  | case7 lo hi hle low hlow hne high hhigh hne' mid hmid middle hmiddle hneg ih =>
      exact ih fun i hi' => hc i (by omega)
  | case8 lo hi hle low hlow hne high hhigh hne' mid hmid middle hmiddle hneg ih =>
      exact ih hc

/-- A zero probe between the bounds is found when the signs are sorted. -/
theorem searchLoop_complete {d : Nat → Int} {lo hi num i : Nat}
    (hc : ∀ k, k ≤ hi → c k = some (d k)) (hs : SignsSorted d num) (hhi : hi < num)
    (hlo : lo ≤ i) (hi' : i ≤ hi) (hz : d i = 0) :
    searchLoop c lo hi = some (some i) := by
  fun_induction searchLoop c lo hi with
  | case1 lo hi hle hlow => simp [hc lo hle] at hlow
  | case2 lo hi hle hlow =>
      have hlow0 : d lo = 0 := by simpa [hc lo hle] using hlow
      -- a second zero would contradict the sign pattern
      have : ¬lo < i := fun hlt => by
        have := hs lo i hlt (by omega) (by omega)
        omega
      rw [show lo = i by omega]
  | case3 lo hi hle low hlow hne hhigh => simp [hc hi (Nat.le_refl _)] at hhigh
  | case4 lo hi hle low hlow hne hhigh =>
      have hhigh0 : d hi = 0 := by simpa [hc hi (Nat.le_refl _)] using hhigh
      have : ¬i < hi := fun hlt => by
        have := hs i hi hlt hhi (by omega)
        omega
      rw [show hi = i by omega]
  | case5 lo hi hle low hlow hne high hhigh hne' mid hmid =>
      have hlowd : d lo = low := by simpa [hc lo hle] using hlow
      have hhighd : d hi = high := by simpa [hc hi (Nat.le_refl _)] using hhigh
      have hnlo : i ≠ lo := fun h => hne (by rw [← hlowd, ← h, hz])
      have hnhi : i ≠ hi := fun h => hne' (by rw [← hhighd, ← h, hz])
      omega
  | case6 lo hi hle low hlow hne high hhigh hne' mid hmid hmiddle =>
      simp [hc mid (by omega)] at hmiddle
  | case7 lo hi hle low hlow hne high hhigh hne' mid hmid middle hmiddle hneg ih =>
      have hmidd : d mid = middle := by simpa [hc mid (by omega)] using hmiddle
      have hle' : i ≤ mid := by
        by_contra hgt
        have := hs mid i (by omega) (by omega) (by omega)
        omega
      exact ih (fun k hk => hc k (by omega)) (by omega) hlo hle'
  | case8 lo hi hle low hlow hne high hhigh hne' mid hmid middle hmiddle hneg ih =>
      have hmidd : d mid = middle := by simpa [hc mid (by omega)] using hmiddle
      have hge : mid ≤ i := by
        by_contra hlt
        have := hs i mid (by omega) (by omega) (by omega)
        omega
      exact ih hc hhi hge hi'
  | case9 lo hi hle => omega

theorem search_sound {num i : Nat} (h : search c num = some (some i)) :
    i < num ∧ c i = some 0 := by
  unfold search at h
  split at h
  · simp at h
  · obtain ⟨-, hi, hz⟩ := searchLoop_sound h
    exact ⟨by omega, hz⟩

theorem search_isSome {num : Nat} (hc : ∀ i, i < num → (c i).isSome) :
    (search c num).isSome := by
  unfold search
  split
  · rfl
  · exact searchLoop_isSome fun i hi => hc i (by omega)

theorem search_complete {d : Nat → Int} {num i : Nat}
    (hc : ∀ k, k < num → c k = some (d k)) (hs : SignsSorted d num)
    (hi : i < num) (hz : d i = 0) : search c num = some (some i) := by
  unfold search
  rw [if_neg (by omega)]
  exact searchLoop_complete (fun k hk => hc k (by omega)) hs (by omega) (Nat.zero_le _)
    (by omega) hz

/-- Without a zero probe nothing is found, in whatever order the elements are. -/
theorem search_eq_none {num : Nat} (hc : ∀ i, i < num → ∃ d, c i = some d ∧ d ≠ 0) :
    search c num = some none := by
  have hsome : (search c num).isSome := search_isSome fun i hi => by
    obtain ⟨d, hd, -⟩ := hc i hi
    rw [hd]
    rfl
  obtain ⟨r, hr⟩ := Option.isSome_iff_exists.mp hsome
  cases r with
  | none => exact hr
  | some i =>
      obtain ⟨hi, hz⟩ := search_sound hr
      obtain ⟨d, hd, hne⟩ := hc i hi
      rw [hz] at hd
      exact absurd (Option.some.inj hd).symm hne

/-- Signs as a target sees them in an ascending array, where several may be zero. -/
def SignsAscending (c : Nat → Int) (num : Nat) : Prop :=
  ∀ i j, i < j → j < num → (c i < 0 → c j < 0) ∧ (c i ≤ 0 → c j ≤ 0)

/-- When the signs ascend, a search that finds nothing leaves no zero between the bounds. -/
theorem ne_zero_of_searchLoop {d : Nat → Int} {lo hi num : Nat}
    (hc : ∀ k, k ≤ hi → c k = some (d k)) (hs : SignsAscending d num) (hhi : hi < num)
    (h : searchLoop c lo hi = some none) : ∀ i, lo ≤ i → i ≤ hi → d i ≠ 0 := by
  fun_induction searchLoop c lo hi with
  | case1 | case2 | case3 | case4 | case6 => simp at h
  | case5 lo hi hle low hlow hne high hhigh hne' mid hmid =>
      have hlowd : d lo = low := by simpa [hc lo hle] using hlow
      have hhighd : d hi = high := by simpa [hc hi (Nat.le_refl _)] using hhigh
      intro i hlo hi' hz
      have hnlo : i ≠ lo := fun h => hne (by rw [← hlowd, ← h, hz])
      have hnhi : i ≠ hi := fun h => hne' (by rw [← hhighd, ← h, hz])
      omega
  | case7 lo hi hle low hlow hne high hhigh hne' mid hmid middle hmiddle hneg ih =>
      have hmidd : d mid = middle := by simpa [hc mid (by omega)] using hmiddle
      intro i hlo hi' hz
      have hle' : i ≤ mid := by
        by_contra hgt
        have := (hs mid i (by omega) (by omega)).1
        omega
      exact ih (fun k hk => hc k (by omega)) (by omega) h i hlo hle' hz
  | case8 lo hi hle low hlow hne high hhigh hne' mid hmid middle hmiddle hneg ih =>
      have hmidd : d mid = middle := by simpa [hc mid (by omega)] using hmiddle
      intro i hlo hi' hz
      by_cases hge : mid ≤ i
      · exact ih hc hhi h i hge hi' hz
      · -- the zero lies before the midpoint, which is then zero too
        have hmid0 := (hs i mid (by omega) (by omega)).2
        exact ih hc hhi h mid (Nat.le_refl _) (by omega) (by omega)
  | case9 lo hi hle =>
      intro i hlo hi'
      omega

theorem ne_zero_of_search {d : Nat → Int} {num : Nat} (hc : ∀ k, k < num → c k = some (d k))
    (hs : SignsAscending d num) (h : search c num = some none) : ∀ i, i < num → d i ≠ 0 := by
  intro i hi
  unfold search at h
  rw [if_neg (by omega)] at h
  exact ne_zero_of_searchLoop (fun k hk => hc k (by omega)) hs (by omega) h i (Nat.zero_le _)
    (by omega)

end Search

/-! ## Binary insertion -/

/--
The loop of `INSERTION_SORT`: where the target goes among elements `[lo, hi]`.
`c i` compares the target with element `i`, `d i` element `i` with the target.
-/
def insertLoop (c d : Nat → Int) (lo hi : Nat) : Nat :=
  if lo ≤ hi then
    if c lo ≤ 0 then lo
    else if d hi ≤ 0 then hi + 1
    else
      let mid := (lo + hi) / 2
      if mid = lo ∨ mid = hi then mid + 1
      else if c mid < 0 then insertLoop c d lo mid
      else insertLoop c d mid hi
  else
    0
  termination_by hi - lo
  decreasing_by all_goals omega

/-- The index `INSERTION_SORT` moves a new last element to, among `num` earlier ones. -/
def insertPosition (c d : Nat → Int) (num : Nat) : Nat :=
  if num = 0 then 0 else insertLoop c d 0 (num - 1)

theorem insertLoop_le (c d : Nat → Int) (lo hi : Nat) : insertLoop c d lo hi ≤ hi + 1 := by
  fun_induction insertLoop c d lo hi <;> omega

theorem insertPosition_le (c d : Nat → Int) (num : Nat) : insertPosition c d num ≤ num := by
  unfold insertPosition
  split
  · omega
  · have := insertLoop_le c d 0 (num - 1)
    omega

theorem insertLoop_eq {c d : Nat → Int} {lo hi p : Nat}
    (hbefore : ∀ i, i < p → 0 < c i ∧ d i < 0)
    (hafter : ∀ i, p ≤ i → i ≤ hi → c i < 0 ∧ 0 < d i)
    (hlo : lo ≤ p) (hp : p ≤ hi + 1) (hle : lo ≤ hi) : insertLoop c d lo hi = p := by
  fun_induction insertLoop c d lo hi with
  | case1 lo hi hle hc =>
      by_contra hne
      have := hbefore lo (by omega)
      omega
  | case2 lo hi hle hc hd =>
      by_contra hne
      have := hafter hi (by omega) (Nat.le_refl _)
      omega
  | case3 lo hi hle hc hd mid hmid =>
      have hlt : lo < p := by
        by_contra hge
        have := hafter lo (by omega) (by omega)
        omega
      have hle' : p ≤ hi := by
        by_contra hgt
        have := hbefore hi (by omega)
        omega
      omega
  | case4 lo hi hle hc hd mid hmid hneg ih =>
      have hpm : p ≤ mid := by
        by_contra hlt
        have := hbefore mid (by omega)
        omega
      exact ih (fun i h h' => hafter i h (by omega)) hlo (by omega) (by omega)
  | case5 lo hi hle hc hd mid hmid hneg ih =>
      have hmp : mid < p := by
        by_contra hge
        have := hafter mid (by omega) (by omega)
        omega
      exact ih hafter (by omega) hp (by omega)
  | case6 lo hi hle' => omega

/-- The target lands at the boundary between the smaller and the larger elements. -/
theorem insertPosition_eq {c d : Nat → Int} {num p : Nat} (hp : p ≤ num)
    (hbefore : ∀ i, i < p → 0 < c i ∧ d i < 0)
    (hafter : ∀ i, p ≤ i → i < num → c i < 0 ∧ 0 < d i) : insertPosition c d num = p := by
  unfold insertPosition
  split
  · omega
  · exact insertLoop_eq hbefore (fun i h h' => hafter i h (by omega)) (Nat.zero_le _)
      (by omega) (Nat.zero_le _)

/--
What a target sees among `num` ascending elements, some of them equal to it:
`d i ≤ 0` says that element `i` is not above it, `c i ≤ 0` that it is not below.
-/
structure Ascending (c d : Nat → Int) (num : Nat) : Prop where
  below : ∀ i j, i ≤ j → j < num → d j ≤ 0 → d i ≤ 0
  above : ∀ i j, i ≤ j → j < num → c i ≤ 0 → c j ≤ 0
  below_of_not : ∀ i, i < num → ¬c i < 0 → d i ≤ 0
  above_of_not : ∀ i, i < num → ¬d i ≤ 0 → c i ≤ 0

/-- The target lands behind elements not above it and before elements not below it. -/
theorem insertLoop_bounds {c d : Nat → Int} {lo hi num : Nat} (hs : Ascending c d num)
    (hle : lo ≤ hi) (hhi : hi < num) (hbelow : ∀ i, i < lo → d i ≤ 0)
    (habove : ∀ i, hi < i → i < num → c i ≤ 0) :
    (∀ i, i < insertLoop c d lo hi → d i ≤ 0) ∧
      ∀ i, insertLoop c d lo hi ≤ i → i < num → c i ≤ 0 := by
  fun_induction insertLoop c d lo hi with
  | case1 lo hi hle hc => exact ⟨hbelow, fun i h h' => hs.above lo i h h' hc⟩
  | case2 lo hi hle hc hd =>
      exact ⟨fun i h => hs.below i hi (by omega) hhi hd, fun i h => habove i (by omega)⟩
  | case3 lo hi hle hc hd mid hmid =>
      have hlow : d lo ≤ 0 := hs.below_of_not lo (by omega) (by omega)
      have hhigh : c hi ≤ 0 := hs.above_of_not hi hhi hd
      have hne : lo ≠ hi := by
        rintro rfl
        exact hc hhigh
      constructor
      · intro i h
        exact hs.below i lo (by omega) (by omega) hlow
      · intro i h h'
        exact hs.above hi i (by omega) h' hhigh
  | case4 lo hi hle hc hd mid hmid hneg ih =>
      apply ih (by omega) (by omega) hbelow
      intro i h h'
      exact hs.above mid i (by omega) h' (by omega)
  | case5 lo hi hle hc hd mid hmid hneg ih =>
      apply ih (by omega) hhi _ habove
      intro i h
      exact hs.below i mid (by omega) (by omega) (hs.below_of_not mid (by omega) hneg)
  | case6 lo hi hle' => omega

theorem insertPosition_bounds {c d : Nat → Int} {num : Nat} (hs : Ascending c d num) :
    (∀ i, i < insertPosition c d num → d i ≤ 0) ∧
      ∀ i, insertPosition c d num ≤ i → i < num → c i ≤ 0 := by
  unfold insertPosition
  split
  · exact ⟨fun i h => absurd h (Nat.not_lt_zero i), fun i _ h => by omega⟩
  · apply insertLoop_bounds hs (Nat.zero_le _) (by omega)
    · exact fun i h => absurd h (Nat.not_lt_zero i)
    · exact fun i h h' => by omega

/-- Inserting between the smaller and the larger elements keeps a list ordered. -/
theorem pairwise_insertIdx {α : Type} {r : α → α → Prop} {l : List α} {x : α} {p : Nat}
    (hl : l.Pairwise r) (hp : p ≤ l.length)
    (hbefore : ∀ i (h : i < l.length), i < p → r l[i] x)
    (hafter : ∀ i (h : i < l.length), p ≤ i → r x l[i]) : (l.insertIdx p x).Pairwise r := by
  rw [List.pairwise_iff_getElem] at hl ⊢
  intro i j hi hj hij
  have hlen := List.length_insertIdx_of_le_length hp x
  rw [List.getElem_insertIdx hi, List.getElem_insertIdx hj]
  rcases Nat.lt_trichotomy i p with hip | hip | hip
  · rw [dif_pos hip]
    split_ifs with hjp hjp'
    · exact hl i j _ _ hij
    · exact hbefore i _ hip
    · exact hl i (j - 1) _ _ (by omega)
  · rw [dif_neg (by omega), dif_pos hip, dif_neg (by omega), dif_neg (by omega)]
    exact hafter (j - 1) _ (by omega)
  · rw [dif_neg (by omega), dif_neg (by omega), dif_neg (by omega), dif_neg (by omega)]
    exact hl (i - 1) (j - 1) _ _ (by omega)

end Zelda.Lib.BinarySearch
