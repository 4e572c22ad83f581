import Mathlib.Tactic.Common
/-!
# Fixed-order arbitration

A scan over consecutive indices that keeps the first contender of greatest
priority seen so far.  Nothing here depends on what is being arbitrated.
-/

namespace Zelda.Lib.Arbiter

variable {κ : Type} [LE κ] [LT κ] [Std.IsLinearOrder κ] [Std.LawfulOrderLT κ]

/-- The winner among the contenders in `[lo, hi)`: greatest priority, then smallest index. -/
structure Wins (contends : Nat → Prop) (priority : Nat → κ) (lo hi winner : Nat) : Prop where
  lo_le : lo ≤ winner
  lt_hi : winner < hi
  mem : contends winner
  greatest : ∀ i, lo ≤ i → i < hi → contends i → priority i ≤ priority winner
  first : ∀ i, lo ≤ i → i < winner → contends i → priority i < priority winner

/-- What a scan of `[lo, hi)` that started at `(idle, floor)` has found. -/
def Scanned (contends : Nat → Prop) (priority : Nat → κ) (idle : Nat) (floor : κ) (lo hi : Nat)
    (best : Nat × κ) : Prop :=
  (best = (idle, floor) ∧ ∀ i, lo ≤ i → i < hi → ¬contends i) ∨
    (best.2 = priority best.1 ∧ Wins contends priority lo hi best.1)

section Scan

variable {contends : Nat → Prop} {priority : Nat → κ} {idle : Nat} {floor : κ} {lo hi : Nat}

omit [Std.IsLinearOrder κ] [Std.LawfulOrderLT κ] in
theorem scanned_skip {best : Nat × κ} (h : Scanned contends priority idle floor lo hi best)
    (hskip : ¬contends hi) : Scanned contends priority idle floor lo (hi + 1) best := by
  rcases h with ⟨rfl, hnone⟩ | ⟨hbest, hwins⟩
  · refine .inl ⟨rfl, fun i hlo hhi hi' => ?_⟩
    rcases Nat.lt_succ_iff_lt_or_eq.mp hhi with hlt | rfl
    · exact hnone i hlo hlt hi'
    · exact hskip hi'
  · refine .inr ⟨hbest, hwins.lo_le, Nat.lt_succ_of_lt hwins.lt_hi, hwins.mem, ?_, hwins.first⟩
    intro i hlo hhi hi'
    rcases Nat.lt_succ_iff_lt_or_eq.mp hhi with hlt | rfl
    · exact hwins.greatest i hlo hlt hi'
    · exact absurd hi' hskip

theorem scanned_take {best : Nat × κ} (h : Scanned contends priority idle floor lo hi best)
    (hlo : lo ≤ hi) (htake : contends hi) (hbeats : best.2 < priority hi) :
    Scanned contends priority idle floor lo (hi + 1) (hi, priority hi) := by
  have hbelow : ∀ i, lo ≤ i → i < hi → contends i → priority i < priority hi := by
    intro i hi₁ hi₂ hi'
    rcases h with ⟨-, hnone⟩ | ⟨hbest, hwins⟩
    · exact absurd hi' (hnone i hi₁ hi₂)
    · apply Std.lt_of_le_of_lt (hwins.greatest i hi₁ hi₂ hi')
      rwa [← hbest]
  refine .inr ⟨rfl, hlo, Nat.lt_succ_self hi, htake, ?_, hbelow⟩
  intro i hi₁ hi₂ hi'
  rcases Nat.lt_succ_iff_lt_or_eq.mp hi₂ with hlt | rfl
  · exact Std.le_of_lt (hbelow i hi₁ hlt hi')
  · exact Std.le_refl _

theorem scanned_keep {best : Nat × κ} (h : Scanned contends priority idle floor lo hi best)
    (hfloor : contends hi → floor < priority hi) (hkeep : ¬best.2 < priority hi) :
    Scanned contends priority idle floor lo (hi + 1) best := by
  by_cases hhi : contends hi
  · rcases h with ⟨rfl, -⟩ | ⟨hbest, hwins⟩
    · exact absurd (hfloor hhi) hkeep
    · refine .inr ⟨hbest, hwins.lo_le, Nat.lt_succ_of_lt hwins.lt_hi, hwins.mem, ?_,
        hwins.first⟩
      intro i hlo hlt hi'
      rcases Nat.lt_succ_iff_lt_or_eq.mp hlt with hlt | rfl
      · exact hwins.greatest i hlo hlt hi'
      · rw [← hbest]
        exact Std.not_lt.mp hkeep
  · exact scanned_skip h hhi

variable (contends priority idle floor lo) in
/-- A fold whose step takes a contender exactly when it beats the best so far. -/
theorem scanned_foldl {step : Nat × κ → Nat → Nat × κ}
    (hstep : ∀ best i, contends i → best.2 < priority i → step best i = (i, priority i))
    (hskip : ∀ best i, ¬contends i → step best i = best)
    (hkeep : ∀ best i, ¬best.2 < priority i → step best i = best)
    (hfloor : ∀ i, contends i → floor < priority i) (n : Nat) :
    Scanned contends priority idle floor lo (lo + n)
      ((List.range' lo n).foldl step (idle, floor)) := by
  induction n with
  | zero => exact .inl ⟨rfl, fun i h₁ h₂ => absurd h₂ (by omega)⟩
  | succ n ih =>
      rw [List.range'_concat, List.foldl_append, Nat.one_mul]
      set best := (List.range' lo n).foldl step (idle, floor)
      show Scanned contends priority idle floor lo (lo + n + 1) (step best (lo + n))
      by_cases hcontends : contends (lo + n)
      · by_cases hbeats : best.2 < priority (lo + n)
        · rw [hstep best _ hcontends hbeats]
          exact scanned_take ih (by omega) hcontends hbeats
        · rw [hkeep best _ hbeats]
          exact scanned_keep ih (hfloor _) hbeats
      · rw [hskip best _ hcontends]
        exact scanned_skip ih hcontends

end Scan

end Zelda.Lib.Arbiter
