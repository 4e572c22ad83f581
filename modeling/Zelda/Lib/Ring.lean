import Mathlib.Tactic.Common
import Mathlib.Logic.Function.Basic
/-!
# Circular buffers

A buffer of `cap` cells with a head and a tail index, one cell kept free so
that equal indices mean empty.  The queue it holds is read off the cells from
the head on.  Nothing here depends on what is queued.
-/

namespace Zelda.Lib.Ring

variable {α : Type} {cap head tail : Nat}

/-- How many cells are occupied. -/
def length (cap head tail : Nat) : Nat :=
  (tail + cap - head) % cap

/-- The queue, oldest element first. -/
def contents (buf : Nat → α) (cap head tail : Nat) : List α :=
  (List.range (length cap head tail)).map fun i => buf ((head + i) % cap)

theorem length_of_le (h : head ≤ tail) (htail : tail < cap) : length cap head tail = tail - head := by
  have hshift : tail + cap - head = tail - head + cap := by omega
  rw [length, hshift, Nat.add_mod_right, Nat.mod_eq_of_lt (by omega)]

theorem length_of_gt (h : tail < head) (hhead : head < cap) :
    length cap head tail = tail + cap - head := by
  rw [length, Nat.mod_eq_of_lt (by omega)]

@[simp] theorem length_contents (buf : Nat → α) :
    (contents buf cap head tail).length = length cap head tail := by
  simp [contents]

theorem length_eq_zero_iff (hhead : head < cap) (htail : tail < cap) :
    length cap head tail = 0 ↔ head = tail := by
  rcases Nat.lt_or_ge tail head with hlt | hge
  · rw [length_of_gt hlt hhead]
    omega
  · rw [length_of_le hge htail]
    omega

theorem contents_eq_nil_iff (buf : Nat → α) (hhead : head < cap) (htail : tail < cap) :
    contents buf cap head tail = [] ↔ head = tail := by
  rw [← List.length_eq_zero_iff, length_contents, length_eq_zero_iff hhead htail]

theorem succ_mod_of_lt (h : head + 1 < cap) : (head + 1) % cap = head + 1 :=
  Nat.mod_eq_of_lt h

theorem succ_mod_of_eq (h : head + 1 = cap) : (head + 1) % cap = 0 := by
  rw [h, Nat.mod_self]

/-- The tail meets the head exactly when one cell is left. -/
theorem full_iff (hhead : head < cap) (htail : tail < cap) :
    (tail + 1) % cap = head ↔ length cap head tail = cap - 1 := by
  rcases Nat.lt_or_ge (tail + 1) cap with hlt | hge
  · rw [succ_mod_of_lt hlt]
    rcases Nat.lt_or_ge tail head with hth | hth
    · rw [length_of_gt hth hhead]
      omega
    · rw [length_of_le hth htail]
      omega
  · rw [succ_mod_of_eq (by omega), length_of_le (by omega) htail]
    omega

theorem length_succ_tail (hhead : head < cap) (htail : tail < cap) (hroom : (tail + 1) % cap ≠ head) :
    length cap head ((tail + 1) % cap) = length cap head tail + 1 := by
  rcases Nat.lt_or_ge (tail + 1) cap with hlt | hge
  · rw [succ_mod_of_lt hlt] at hroom ⊢
    rcases Nat.lt_or_ge tail head with hth | hth
    · rw [length_of_gt (by omega) hhead, length_of_gt hth hhead]
      omega
    · rw [length_of_le (by omega) hlt, length_of_le hth htail]
      omega
  · rw [succ_mod_of_eq (by omega)] at hroom ⊢
    rw [length_of_gt (by omega) hhead, length_of_le (by omega) htail]
    omega

theorem length_succ_head (hhead : head < cap) (htail : tail < cap) (hne : head ≠ tail) :
    length cap head tail = length cap ((head + 1) % cap) tail + 1 := by
  rcases Nat.lt_or_ge (head + 1) cap with hlt | hge
  · rw [succ_mod_of_lt hlt]
    rcases Nat.lt_or_ge tail head with hth | hth
    · rw [length_of_gt hth hhead, length_of_gt (by omega) hlt]
      omega
    · rw [length_of_le hth htail, length_of_le (by omega) htail]
      omega
  · rw [succ_mod_of_eq (by omega), length_of_gt (by omega) hhead, length_of_le (by omega) htail]
    omega

/-- The cell after the last queued element is the tail. -/
theorem add_length_mod (hhead : head < cap) (htail : tail < cap) :
    (head + length cap head tail) % cap = tail := by
  rcases Nat.lt_or_ge tail head with hth | hth
  · rw [length_of_gt hth hhead]
    have hsum : head + (tail + cap - head) = tail + cap := by omega
    rw [hsum, Nat.add_mod_right, Nat.mod_eq_of_lt htail]
  · rw [length_of_le hth htail]
    have hsum : head + (tail - head) = tail := by omega
    rw [hsum, Nat.mod_eq_of_lt htail]

/-- No queued element lies in the tail cell. -/
theorem add_mod_ne_tail (hhead : head < cap) (htail : tail < cap) {i : Nat}
    (hi : i < length cap head tail) : (head + i) % cap ≠ tail := by
  rcases Nat.lt_or_ge (head + i) cap with hlt | hge
  · rw [Nat.mod_eq_of_lt hlt]
    rcases Nat.lt_or_ge tail head with hth | hth
    · omega
    · rw [length_of_le hth htail] at hi
      omega
  · rw [Nat.mod_eq_sub_mod hge]
    rcases Nat.lt_or_ge tail head with hth | hth
    · rw [length_of_gt hth hhead] at hi
      rw [Nat.mod_eq_of_lt (by omega)]
      omega
    · rw [length_of_le hth htail] at hi
      omega

/-- Storing at the tail and advancing it appends an element. -/
theorem contents_push (buf : Nat → α) (x : α) (hhead : head < cap) (htail : tail < cap)
    (hroom : (tail + 1) % cap ≠ head) :
    contents (Function.update buf tail x) cap head ((tail + 1) % cap) =
      contents buf cap head tail ++ [x] := by
  unfold contents
  rw [length_succ_tail hhead htail hroom, List.range_succ, List.map_append]
  congr 1
  · apply List.map_congr_left
    intro i hi
    rw [Function.update_of_ne (add_mod_ne_tail hhead htail (List.mem_range.mp hi))]
  · rw [List.map_singleton, add_length_mod hhead htail, Function.update_self]

/-- Reading the head cell and advancing the head removes the oldest element. -/
theorem contents_pop (buf : Nat → α) (hhead : head < cap) (htail : tail < cap) (hne : head ≠ tail) :
    contents buf cap head tail = buf head :: contents buf cap ((head + 1) % cap) tail := by
  unfold contents
  rw [length_succ_head hhead htail hne, List.range_succ_eq_map, List.map_cons, List.map_map,
    Nat.add_zero, Nat.mod_eq_of_lt hhead]
  congr 1
  apply List.map_congr_left
  intro i _
  show buf ((head + (i + 1)) % cap) = buf (((head + 1) % cap + i) % cap)
  rw [Nat.mod_add_mod, Nat.add_assoc, Nat.add_comm 1 i]

end Zelda.Lib.Ring
