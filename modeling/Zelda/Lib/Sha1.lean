import Mathlib.Data.BitVec
import Mathlib.Data.List.Basic
import Mathlib.Tactic.Common
/-!
# SHA-1

The secure hash standard: a message is padded to whole blocks, and a chaining
value absorbs these one after another.
-/

namespace Zelda.Lib.Sha1

/-! ## Absorbing blocks -/

section Absorb

variable {α σ : Type} (compress : σ → List α → σ) (n : Nat)

/-- Absorb the first `k` blocks of `n` items. -/
def absorbBlocks : Nat → σ → List α → σ
  | 0, s, _ => s
  | k + 1, s, message => absorbBlocks k (compress s (message.take n)) (message.drop n)

/-- Absorb every whole block; a rest is left over. -/
def absorb (s : σ) (message : List α) : σ :=
  absorbBlocks compress n (message.length / n) s message

theorem absorb_short (s : σ) (message : List α) (h : message.length < n) :
    absorb compress n s message = s := by
  rw [absorb, Nat.div_eq_of_lt h, absorbBlocks]

theorem absorb_block (s : σ) {block : List α} (hblock : block.length = n) (hn : 0 < n)
    (rest : List α) :
    absorb compress n s (block ++ rest) = absorb compress n (compress s block) rest := by
  have hcount : (block ++ rest).length / n = rest.length / n + 1 := by
    rw [List.length_append, hblock, Nat.add_comm n, Nat.add_div_right _ hn]
  rw [absorb, hcount, absorbBlocks, ← hblock, List.take_left, List.drop_left]
  rfl

theorem absorb_append (s : σ) {front : List α} (hn : 0 < n) (hfront : n ∣ front.length)
    (rest : List α) :
    absorb compress n s (front ++ rest) =
      absorb compress n (absorb compress n s front) rest := by
  obtain ⟨k, hk⟩ := hfront
  induction k generalizing s front with
  | zero =>
      obtain rfl : front = [] := List.length_eq_zero_iff.mp hk
      rw [absorb_short compress n s [] hn]
      rfl
  | succ k ih =>
      have hlong : n ≤ front.length := by
        rw [hk]
        exact Nat.le_mul_of_pos_right n (Nat.succ_pos k)
      have hblock : (front.take n).length = n := List.length_take_of_le hlong
      have hrest : (front.drop n).length = n * k := by
        rw [List.length_drop, hk, Nat.mul_succ, Nat.add_sub_cancel]
      rw [← List.take_append_drop n front, List.append_assoc, absorb_block compress n s hblock hn,
        absorb_block compress n s hblock hn, ih _ hrest]

end Absorb

/-! ## The compression function -/

/-- The five words of a hash value, or the five working variables. -/
structure State where
  a : BitVec 32
  b : BitVec 32
  c : BitVec 32
  d : BitVec 32
  e : BitVec 32
  deriving DecidableEq, Repr

def ch (x y z : BitVec 32) : BitVec 32 :=
  (x &&& y) ^^^ (~~~x &&& z)

def parity (x y z : BitVec 32) : BitVec 32 :=
  x ^^^ y ^^^ z

def maj (x y z : BitVec 32) : BitVec 32 :=
  (x &&& y) ^^^ (x &&& z) ^^^ (y &&& z)

/-- The function of round `t`. -/
def roundFunction (t : Nat) : BitVec 32 → BitVec 32 → BitVec 32 → BitVec 32 :=
  if t < 20 then ch else if t < 40 then parity else if t < 60 then maj else parity

/-- The constant of round `t`. -/
def roundConstant (t : Nat) : BitVec 32 :=
  if t < 20 then 0x5a827999
  else if t < 40 then 0x6ed9eba1
  else if t < 60 then 0x8f1bbcdc
  else 0xca62c1d6

/-- Word `i` of a block, its most significant byte first. -/
def blockWord (block : List (BitVec 8)) (i : Nat) : BitVec 32 :=
  block.getD (4 * i) 0 ++ block.getD (4 * i + 1) 0 ++ block.getD (4 * i + 2) 0 ++
    block.getD (4 * i + 3) 0

/-- The message schedule. -/
def schedule (block : List (BitVec 8)) (t : Nat) : BitVec 32 :=
  if t < 16 then blockWord block t
  else
    (schedule block (t - 3) ^^^ schedule block (t - 8) ^^^ schedule block (t - 14) ^^^
      schedule block (t - 16)).rotateLeft 1
  termination_by t

/-- Round `t` with the word `w` of the schedule. -/
def round (t : Nat) (w : BitVec 32) (v : State) : State where
  a := v.a.rotateLeft 5 + roundFunction t v.b v.c v.d + v.e + roundConstant t + w
  b := v.a
  c := v.b.rotateLeft 30
  d := v.c
  e := v.d

/-- The first rounds on a block. -/
def rounds (block : List (BitVec 8)) (v : State) : Nat → State
  | 0 => v
  | t + 1 => round t (schedule block t) (rounds block v t)

def compress (h : State) (block : List (BitVec 8)) : State :=
  let v := rounds block h 80
  { a := h.a + v.a, b := h.b + v.b, c := h.c + v.c, d := h.d + v.d, e := h.e + v.e }

/-! ## The digest -/

def initial : State :=
  { a := 0x67452301, b := 0xefcdab89, c := 0x98badcfe, d := 0x10325476, e := 0xc3d2e1f0 }

/-- The bytes of a word, most significant first. -/
def wordBytes (w : BitVec 32) : List (BitVec 8) :=
  [w.extractLsb' 24 8, w.extractLsb' 16 8, w.extractLsb' 8 8, w.extractLsb' 0 8]

/-- The length of a message in bits, as the padding ends with it. -/
def lengthBytes (length : Nat) : List (BitVec 8) :=
  let bits := BitVec.ofNat 64 (8 * length)
  wordBytes (bits.extractLsb' 32 32) ++ wordBytes (bits.extractLsb' 0 32)

/-- A one bit, and zeros until eight bytes are missing to a whole block. -/
def paddingBytes (length : Nat) : List (BitVec 8) :=
  0x80 :: List.replicate ((119 - length % 64) % 64) 0

/-- A padded message. -/
def pad (message : List (BitVec 8)) : List (BitVec 8) :=
  message ++ paddingBytes message.length ++ lengthBytes message.length

def stateBytes (h : State) : List (BitVec 8) :=
  wordBytes h.a ++ wordBytes h.b ++ wordBytes h.c ++ wordBytes h.d ++ wordBytes h.e

/-- The SHA-1 digest of a message. -/
def digest (message : List (BitVec 8)) : List (BitVec 8) :=
  stateBytes (absorb compress 64 initial (pad message))

theorem schedule_of_lt (block : List (BitVec 8)) {t : Nat} (h : t < 16) :
    schedule block t = blockWord block t := by
  rw [schedule, if_pos h]

theorem schedule_add_sixteen (block : List (BitVec 8)) (t : Nat) :
    schedule block (t + 16) =
      (schedule block (t + 13) ^^^ schedule block (t + 8) ^^^ schedule block (t + 2) ^^^
        schedule block t).rotateLeft 1 := by
  rw [schedule, if_neg (by omega)]
  rfl

theorem length_paddingBytes (length : Nat) :
    (paddingBytes length).length = (119 - length % 64) % 64 + 1 := by
  simp [paddingBytes]

theorem length_lengthBytes (length : Nat) : (lengthBytes length).length = 8 := rfl

end Zelda.Lib.Sha1
