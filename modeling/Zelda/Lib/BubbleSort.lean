import Mathlib.Tactic.Common
import Mathlib.Data.List.Induction
/-!
# Bubble sort over a comparator

The `SORT` of `sort.h`.  The comparator may trip an assertion, which is
`none`, and need not be an order on all elements: what matters here is where a
new last element goes among elements that are already in place.
-/

namespace Zelda.Lib.BubbleSort

variable {α : Type} (comp : α → α → Option Int)

/-- The first `n` compare-and-swap steps of a pass. -/
def pass : Nat → List α → Option (List α)
  | n + 1, x :: y :: rest =>
      match comp x y with
      | none => none
      | some c =>
          if 0 < c then (pass n (x :: rest)).map (y :: ·)
          else (pass n (y :: rest)).map (x :: ·)
  | _, l => some l

/-- The outer loop, with `idx_out` counting down from `n`. -/
def sortLoop : Nat → List α → Option (List α)
  | 0, l => some l
  | n + 1, l => (pass comp (n + 1) l).bind (sortLoop n)

/-- `SORT(type, base, num, comp)`. -/
def sort (l : List α) : Option (List α) :=
  sortLoop comp (l.length - 1) l

/-- Elements that no pass exchanges. -/
def InPlace (a b : α) : Prop :=
  ∃ c, c ≤ 0 ∧ comp a b = some c

variable {comp}

theorem pass_cons_of_inPlace {n : Nat} {x y : α} {rest : List α} (h : InPlace comp x y) :
    pass comp (n + 1) (x :: y :: rest) = (pass comp n (y :: rest)).map (x :: ·) := by
  obtain ⟨c, hc, hcomp⟩ := h
  simp only [pass, hcomp]
  rw [if_neg (by omega)]

/-- A pass over elements in place changes nothing. -/
theorem pass_inPlace {n : Nat} {l : List α} (h : (l.take (n + 1)).Pairwise (InPlace comp)) :
    pass comp n l = some l := by
  induction n generalizing l with
  | zero => simp [pass]
  | succ n ih =>
      match l with
      | [] => rfl
      | [x] => rfl
      | x :: y :: rest =>
          rw [List.take_succ_cons, List.pairwise_cons] at h
          rw [pass_cons_of_inPlace (h.1 y (by simp)), ih h.2]
          rfl

theorem sortLoop_inPlace {n : Nat} {l : List α} (h : (l.take (n + 1)).Pairwise (InPlace comp)) :
    sortLoop comp n l = some l := by
  induction n with
  | zero => rfl
  | succ n ih =>
      rw [sortLoop, pass_inPlace h]
      apply ih
      have hprefix : l.take (n + 1) <+: l.take (n + 2) := List.take_prefix_take_left (by omega)
      exact List.Pairwise.sublist hprefix.sublist h

/-- A pass that ends at a new element compares it with the last one before it. -/
theorem pass_concat {as cs : List α} {b x : α} (h : (as ++ [b]).Pairwise (InPlace comp)) :
    pass comp (as.length + 1) (as ++ b :: x :: cs) =
      (comp b x).map fun c => if 0 < c then as ++ x :: b :: cs else as ++ b :: x :: cs := by
  induction as with
  | nil =>
      simp only [List.length_nil, List.nil_append, pass]
      cases comp b x with
      | none => rfl
      | some c =>
          simp only [Option.map_some]
          split <;> rfl
  | cons a rest ih =>
      rw [List.cons_append, List.pairwise_cons] at h
      -- the element after `a` is one of those in place
      obtain ⟨y, tail, hy, hmem⟩ : ∃ y tail, rest ++ b :: x :: cs = y :: tail ∧ y ∈ rest ++ [b] := by
        cases rest with
        | nil => exact ⟨b, x :: cs, rfl, by simp⟩
        | cons r rest => exact ⟨r, rest ++ b :: x :: cs, rfl, by simp⟩
      rw [List.length_cons, List.cons_append, hy, pass_cons_of_inPlace (h.1 y hmem), ← hy, ih h.2,
        Option.map_map]
      congr 1
      funext c
      simp only [Function.comp_apply]
      split <;> rfl

/-- Where the loop leaves a new element. -/
theorem sortLoop_concat {as cs l : List α} {x : α} (h : as.Pairwise (InPlace comp))
    (hsort : sortLoop comp as.length (as ++ x :: cs) = some l) :
    ∃ lower upper, as = lower ++ upper ∧ l = lower ++ x :: (upper ++ cs) ∧
      (∀ b ∈ upper, ∃ c, 0 < c ∧ comp b x = some c) ∧
      ∀ a ∈ lower.getLast?, InPlace comp a x := by
  induction as using List.reverseRecOn generalizing cs with
  | nil =>
      refine ⟨[], [], rfl, ?_, ?_, ?_⟩
      · exact (Option.some.inj hsort).symm
      · intro b hb
        cases hb
      · intro a ha
        cases ha
  | append_singleton as b ih =>
      rw [List.length_append, List.length_singleton, List.append_assoc, List.singleton_append,
        sortLoop, pass_concat h] at hsort
      cases hcomp : comp b x with
      | none =>
          rw [hcomp] at hsort
          cases hsort
      | some c =>
          rw [hcomp, Option.map_some, Option.bind_some] at hsort
          by_cases hc : 0 < c
          · rw [if_pos hc] at hsort
            obtain ⟨lower, upper, rfl, hl, hupper, hlower⟩ :=
              ih (List.pairwise_append.mp h).1 hsort
            refine ⟨lower, upper ++ [b], ?_, ?_, ?_, hlower⟩
            · rw [List.append_assoc]
            · rw [hl, List.append_assoc, List.singleton_append]
            · intro b' hb'
              rcases List.mem_append.mp hb' with hmem | hmem
              · exact hupper b' hmem
              · rw [List.mem_singleton.mp hmem]
                exact ⟨c, hc, hcomp⟩
          · rw [if_neg hc] at hsort
            have hplace : ((as ++ b :: x :: cs).take (as.length + 1)).Pairwise (InPlace comp) := by
              have htake : (as ++ b :: x :: cs).take (as.length + 1) = as ++ [b] := by
                rw [List.take_append, List.take_of_length_le (by omega)]
                simp
              rw [htake]
              exact h
            rw [sortLoop_inPlace hplace] at hsort
            refine ⟨as ++ [b], [], ?_, ?_, ?_, ?_⟩
            · rw [List.append_nil]
            · rw [← Option.some.inj hsort, List.append_assoc, List.singleton_append,
                List.nil_append]
            · intro b' hb'
              cases hb'
            · intro a ha
              rw [List.getLast?_concat] at ha
              cases ha
              exact ⟨c, by omega, hcomp⟩

/-- Sorting with one new element puts it below the elements it is exchanged with. -/
theorem sort_concat {as l : List α} {x : α} (h : as.Pairwise (InPlace comp))
    (hsort : sort comp (as ++ [x]) = some l) :
    ∃ lower upper, as = lower ++ upper ∧ l = lower ++ x :: upper ∧
      (∀ b ∈ upper, ∃ c, 0 < c ∧ comp b x = some c) ∧
      ∀ a ∈ lower.getLast?, InPlace comp a x := by
  rw [sort, List.length_append, List.length_singleton, Nat.add_sub_cancel] at hsort
  obtain ⟨lower, upper, has, hl, hupper, hlower⟩ := sortLoop_concat h hsort
  rw [List.append_nil] at hl
  exact ⟨lower, upper, has, hl, hupper, hlower⟩

end Zelda.Lib.BubbleSort
