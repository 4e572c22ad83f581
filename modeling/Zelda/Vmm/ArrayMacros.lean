import Mathlib.Tactic.Common
/-!
# `SEARCH` and `INSERTION_SORT`

The array macros of `search.h` and `sort.h` for any element type and any
comparator.  An array is the list of its `num` elements and every access is
checked against it: `none` is an access outside of `[0, num)`.  Indices are
`int`; no array of the emulator comes near the `2 ^ 30` elements at which the
sum of two of them would overflow.
-/

namespace Zelda.Vmm.ArrayMacros

variable {α : Type}

/-- A read of `ELEM(type, base, index)`. -/
def elem (base : List α) (index : Int) : Option α :=
  if 0 ≤ index then base[index.toNat]? else none

/-- A store to `ELEM(type, base, index)`. -/
def setElem (base : List α) (index : Int) (value : α) : Option (List α) :=
  if 0 ≤ index ∧ index < base.length then some (base.set index.toNat value) else none

/-! ## Search -/

/-- The loop of `SEARCH`. -/
def searchLoop (base : List α) (comp : α → α → Int) (target : α) (idxLow idxHigh : Int) :
    Option (Option α) :=
  if idxLow ≤ idxHigh then do
    let elemLow ← elem base idxLow
    if comp target elemLow = 0 then some (some elemLow)
    else do
      let elemHigh ← elem base idxHigh
      if comp target elemHigh = 0 then some (some elemHigh)
      else
        -- neither end is negative here, where this is C's division
        let idxMid := (idxLow + idxHigh) / 2
        if idxMid = idxLow ∨ idxMid = idxHigh then some none
        else do
          let elemMid ← elem base idxMid
          if comp target elemMid < 0 then searchLoop base comp target idxLow idxMid
          else searchLoop base comp target idxMid idxHigh
  else
    some none
  termination_by (idxHigh - idxLow).toNat
  decreasing_by all_goals omega

/-- `SEARCH(type, base, num, comp, target)`. -/
def search (base : List α) (comp : α → α → Int) (target : α) : Option (Option α) :=
  searchLoop base comp target 0 (base.length - 1)

/-! ## Insertion -/

/-- The first loop of `INSERTION_SORT`, which computes `__idx_move`. -/
def insertionLoop (base : List α) (comp : α → α → Int) (elemTarget : α) (idxLow idxHigh : Int) :
    Option Int :=
  if idxLow ≤ idxHigh then do
    let elemLow ← elem base idxLow
    if comp elemTarget elemLow ≤ 0 then some idxLow
    else do
      let elemHigh ← elem base idxHigh
      if comp elemHigh elemTarget ≤ 0 then some (idxHigh + 1)
      else
        let idxMid := (idxLow + idxHigh) / 2
        if idxMid = idxLow ∨ idxMid = idxHigh then some (idxMid + 1)
        else do
          let elemMid ← elem base idxMid
          if comp elemTarget elemMid < 0 then insertionLoop base comp elemTarget idxLow idxMid
          else insertionLoop base comp elemTarget idxMid idxHigh
  else
    some 0
  termination_by (idxHigh - idxLow).toNat
  decreasing_by all_goals omega

/-- The second loop of `INSERTION_SORT`, from `__idx` down to `__idx_move`. -/
def moveLoop (base : List α) (idx idxMove : Int) : Option (List α) :=
  if idxMove < idx then do
    let previous ← elem base (idx - 1)
    let base ← setElem base idx previous
    moveLoop base (idx - 1) idxMove
  else
    some base
  termination_by (idx - idxMove).toNat
  decreasing_by all_goals omega

/-- `INSERTION_SORT(type, base, num, comp)`: the last element is the one to be inserted. -/
def insertionSort (base : List α) (comp : α → α → Int) : Option (List α) :=
  if base.length = 0 then some base
  else do
    let elemTarget ← elem base (base.length - 1)
    let idxMove ← insertionLoop base comp elemTarget 0 (base.length - 2)
    if idxMove < base.length - 1 then do
      let moved ← moveLoop base (base.length - 1) idxMove
      setElem moved idxMove elemTarget
    else
      some base

end Zelda.Vmm.ArrayMacros
