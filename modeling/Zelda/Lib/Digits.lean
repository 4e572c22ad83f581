import Mathlib.Data.Nat.Digits.Defs
/-!
# Numerals from a stack of digits

Dividing by the base yields the digits of a number from the last to the first.
A routine that prints a number pushes them on a stack and reads the stack from
its top.
-/

namespace Zelda.Lib.Digits

variable {α : Type}

/-- Push the digits of `n` on a stack with room for `room` more. -/
def stackDigits (base : Nat) (digit : Nat → α) : Nat → Nat → List α → List α
  | 0, _, stack => stack
  | room + 1, n, stack =>
      if n = 0 then stack else stackDigits base digit room (n / base) (digit (n % base) :: stack)

/-- The digits of `n` from the first to the last, none for zero. -/
def leading (base : Nat) (digit : Nat → α) (n : Nat) : List α :=
  ((Nat.digits base n).map digit).reverse

/-- The numeral of `n`. -/
def numeral (base : Nat) (digit : Nat → α) (n : Nat) : List α :=
  if n = 0 then [digit 0] else leading base digit n

theorem leading_zero (base : Nat) (digit : Nat → α) : leading base digit 0 = [] := by
  rw [leading, Nat.digits_zero, List.map_nil, List.reverse_nil]

theorem leading_of_pos {base n : Nat} (digit : Nat → α) (hbase : 1 < base) (hn : 0 < n) :
    leading base digit n = leading base digit (n / base) ++ [digit (n % base)] := by
  rw [leading, Nat.digits_def' hbase hn, List.map_cons, List.reverse_cons, leading]

/-- A stack with enough room ends up with the digits on top, the first one topmost. -/
theorem stackDigits_eq {base : Nat} (digit : Nat → α) (hbase : 1 < base) {room n : Nat}
    (hroom : n < base ^ room) (stack : List α) :
    stackDigits base digit room n stack = leading base digit n ++ stack := by
  induction room generalizing n stack with
  | zero =>
      obtain rfl : n = 0 := by
        rw [pow_zero] at hroom
        omega
      rw [stackDigits, leading_zero, List.nil_append]
  | succ room ih =>
      rcases Nat.eq_zero_or_pos n with rfl | hn
      · rw [stackDigits, if_pos rfl, leading_zero, List.nil_append]
      · have hquotient : n / base < base ^ room := by
          rw [Nat.div_lt_iff_lt_mul (by omega), ← pow_succ]
          exact hroom
        rw [stackDigits, if_neg hn.ne', ih hquotient, leading_of_pos digit hbase hn,
          List.append_assoc, List.singleton_append]

theorem leading_ne_nil {base n : Nat} (digit : Nat → α) (hbase : 1 < base) (hn : 0 < n) :
    leading base digit n ≠ [] := by
  rw [leading_of_pos digit hbase hn]
  exact List.append_ne_nil_of_right_ne_nil _ (List.cons_ne_nil _ _)

end Zelda.Lib.Digits
