import Zelda.Firmware.Sha1
import Mathlib.Tactic.IntervalCases
/-!
# The boot ROM's SHA-1 is SHA-1

The unrolled rounds keep the schedule in sixteen words and rotate the roles of
the working variables instead of their values.  The streaming interface then
absorbs whatever it is fed, in any pieces, up to the padding of the standard.
-/

namespace Zelda.Proofs.Sha1

open Zelda.Firmware
open Zelda.Vmm
open Zelda.Lib.ByteBuffer
open Zelda.Lib.Sha1

/-! ## Words -/

theorem rol_eq_rotateLeft (value : Word) {bits : Nat} (h : bits < 32) :
    rol value bits = value.rotateLeft bits := by
  rw [rol, BitVec.rotateLeft, BitVec.rotateLeftAux, Nat.mod_eq_of_lt h]

theorem swap_bytes (b0 b1 b2 b3 : Byte) :
    (rol (b3 ++ b2 ++ b1 ++ b0) 24 &&& 0xff00ff00) |||
      (rol (b3 ++ b2 ++ b1 ++ b0) 8 &&& 0x00ff00ff) = b0 ++ b1 ++ b2 ++ b3 := by
  apply BitVec.eq_of_getLsbD_eq
  intro i hi
  unfold rol
  simp only [BitVec.getLsbD_or, BitVec.getLsbD_and, BitVec.getLsbD_shiftLeft,
    BitVec.getLsbD_ushiftRight, BitVec.getLsbD_append]
  interval_cases i <;> simp

/-- The choice of `R0` and `R1`, written without a complement. -/
theorem select_eq_ch (w x y : Word) : (w &&& (x ^^^ y)) ^^^ y = ch w x y := by
  unfold ch
  ext i hi
  simp only [BitVec.getElem_xor, BitVec.getElem_and, BitVec.getElem_not]
  cases w[i] <;> cases x[i] <;> cases y[i] <;> rfl

/-- The majority of `R3`. -/
theorem either_eq_maj (w x y : Word) : ((w ||| x) &&& y) ||| (w &&& x) = maj w x y := by
  unfold maj
  ext i hi
  simp only [BitVec.getElem_xor, BitVec.getElem_and, BitVec.getElem_or]
  cases w[i] <;> cases x[i] <;> cases y[i] <;> rfl

theorem and_fifteen (n : Nat) : n &&& 15 = n % 16 :=
  Nat.and_two_pow_sub_one_eq_mod n 4

/-! ## The rounds -/

/-- The variables in turn. -/
def varAt (n : Nat) : Var :=
  match n % 5 with
  | 0 => .a
  | 1 => .b
  | 2 => .c
  | 3 => .d
  | _ => .e

theorem varAt_ne {m n : Nat} (h : m % 5 ≠ n % 5) : varAt m ≠ varAt n := by
  unfold varAt
  have hm := Nat.mod_lt m (by decide : 0 < 5)
  have hn := Nat.mod_lt n (by decide : 0 < 5)
  generalize m % 5 = i at h hm
  generalize n % 5 = j at h hn
  interval_cases i <;> interval_cases j <;> first | exact absurd rfl h | decide

/-- The variable that plays role `k` in round `t`. -/
def role (t k : Nat) : Var :=
  varAt (4 * t + k)

theorem role_succ (t k : Nat) : role (t + 1) (k + 1) = role t k := by
  have hmod : (4 * (t + 1) + (k + 1)) % 5 = (4 * t + k) % 5 := by omega
  unfold role varAt
  rw [hmod]

theorem role_succ_zero (t : Nat) : role (t + 1) 0 = role t 4 := rfl

theorem role_ne {t j k : Nat} (hj : j < 5) (hk : k < 5) (h : j ≠ k) : role t j ≠ role t k :=
  varAt_ne (by omega)

/-- The working variables of the standard, as round `t` finds them. -/
def view (vars : Var → Word) (t : Nat) : State where
  a := vars (role t 0)
  b := vars (role t 1)
  c := vars (role t 2)
  d := vars (role t 3)
  e := vars (role t 4)

/-- Round `t` of the unrolled code. -/
def roundAt (t : Nat) : Locals → Locals :=
  (if t < 16 then R0 else if t < 20 then R1 else if t < 40 then R2 else if t < 60 then R3 else R4)
    (role t 0) (role t 1) (role t 2) (role t 3) (role t 4) t

theorem transformRounds_eq : transformRounds = (List.range 80).map roundAt := rfl

/-- What the macros do to the roles. -/
theorem view_roundMacro (f : Word → Word → Word → Word)
    (expand : Nat → (Nat → Word) → Word × (Nat → Word)) (constant : Word) (t : Nat) (s : Locals) :
    view (roundMacro f expand constant (role t 0) (role t 1) (role t 2) (role t 3) (role t 4) t
        s).vars (t + 1) =
      { a := (view s.vars t).a.rotateLeft 5 +
          f (view s.vars t).b (view s.vars t).c (view s.vars t).d + (view s.vars t).e + constant +
          (expand t s.block).1
        b := (view s.vars t).a
        c := (view s.vars t).b.rotateLeft 30
        d := (view s.vars t).c
        e := (view s.vars t).d } := by
  have hne : ∀ j k, j < 5 → k < 5 → j ≠ k → role t j ≠ role t k := fun _ _ => role_ne
  simp only [view, roundMacro, role_succ_zero, role_succ]
  rw [Function.update_self, Function.update_of_ne (hne 4 1 (by decide) (by decide) (by decide)),
    Function.update_self,
    Function.update_of_ne (hne 0 1 (by decide) (by decide) (by decide)),
    Function.update_of_ne (hne 0 4 (by decide) (by decide) (by decide)),
    Function.update_of_ne (hne 1 4 (by decide) (by decide) (by decide)),
    Function.update_of_ne (hne 2 1 (by decide) (by decide) (by decide)),
    Function.update_of_ne (hne 2 4 (by decide) (by decide) (by decide)),
    Function.update_of_ne (hne 3 1 (by decide) (by decide) (by decide)),
    Function.update_of_ne (hne 3 4 (by decide) (by decide) (by decide)),
    rol_eq_rotateLeft _ (by decide), rol_eq_rotateLeft _ (by decide)]
  congr 1
  ac_rfl

/-- The sixteen words before round `t`: those not yet swapped, and the last of the schedule. -/
structure Expanded (block : List Byte) (t : Nat) (words : Nat → Word) : Prop where
  raw : ∀ j, t ≤ j → j < 16 → words j = blockWords block j
  done : ∀ j, j < t → t ≤ j + 16 → words (j % 16) = schedule block j

theorem expanded_blk0 {block : List Byte} {t : Nat} {words : Nat → Word}
    (h : Expanded block t words) (ht : t < 16) :
    (blk0 t words).1 = schedule block t ∧ Expanded block (t + 1) (blk0 t words).2 := by
  have hword : (blk0 t words).1 = schedule block t := by
    rw [schedule_of_lt block ht]
    simp only [blk0, h.raw t le_rfl ht]
    exact swap_bytes _ _ _ _
  refine ⟨hword, ?_, ?_⟩
  · intro j hj hlt
    simp only [blk0]
    rw [Function.update_of_ne (by omega)]
    exact h.raw j (by omega) hlt
  · intro j hj hle
    have hmod : j % 16 = j := Nat.mod_eq_of_lt (by omega)
    rcases Nat.lt_succ_iff_lt_or_eq.mp hj with hlt | rfl
    · simp only [blk0]
      rw [Function.update_of_ne (by omega)]
      exact h.done j hlt (by omega)
    · rw [hmod, ← hword]
      exact Function.update_self ..

theorem expanded_blk {block : List Byte} {t : Nat} {words : Nat → Word}
    (h : Expanded block t words) (ht : 16 ≤ t) :
    (blk t words).1 = schedule block t ∧ Expanded block (t + 1) (blk t words).2 := by
  obtain ⟨u, rfl⟩ : ∃ u, t = u + 16 := ⟨t - 16, by omega⟩
  -- the four words the recurrence reads are still there
  have hread : ∀ k, k < 16 → words ((u + 16 + k) &&& 15) = schedule block (u + k) := by
    intro k hk
    have hmod : (u + 16 + k) % 16 = (u + k) % 16 := by omega
    rw [and_fifteen, hmod]
    exact h.done (u + k) (by omega) (by omega)
  have hword : (blk (u + 16) words).1 = schedule block (u + 16) := by
    have hzero := hread 0 (by decide)
    simp only [Nat.add_zero] at hzero
    simp only [blk]
    rw [hread 13 (by decide), hread 8 (by decide), hread 2 (by decide), hzero,
      rol_eq_rotateLeft _ (by decide), schedule_add_sixteen]
  refine ⟨hword, ?_, ?_⟩
  · intro j hj hlt
    omega
  · intro j hj hle
    rcases Nat.lt_succ_iff_lt_or_eq.mp hj with hlt | rfl
    · simp only [blk, and_fifteen]
      rw [Function.update_of_ne (by omega)]
      exact h.done j hlt (by omega)
    · rw [← and_fifteen, ← hword]
      exact Function.update_self ..

/-- What holds before round `t`. -/
structure Reached (block : List Byte) (h : State) (t : Nat) (s : Locals) : Prop where
  vars : view s.vars t = rounds block h t
  block : Expanded block t s.block

theorem reached_roundMacro {block : List Byte} {h : State} {t : Nat} {s : Locals}
    (hs : Reached block h t s) {f : Word → Word → Word → Word}
    {expand : Nat → (Nat → Word) → Word × (Nat → Word)} {constant : Word}
    (hf : f = roundFunction t) (hconstant : constant = roundConstant t)
    (hexpand : (expand t s.block).1 = schedule block t ∧
      Expanded block (t + 1) (expand t s.block).2) :
    Reached block h (t + 1)
      (roundMacro f expand constant (role t 0) (role t 1) (role t 2) (role t 3) (role t 4) t s) := by
  refine ⟨?_, hexpand.2⟩
  rw [view_roundMacro, hexpand.1, hs.vars, hf, hconstant]
  rfl

theorem reached_roundAt {block : List Byte} {h : State} {t : Nat} {s : Locals}
    (hs : Reached block h t s) : Reached block h (t + 1) (roundAt t s) := by
  have hch : (fun w x y : Word => (w &&& (x ^^^ y)) ^^^ y) = ch := by
    funext w x y
    exact select_eq_ch w x y
  have hmaj : (fun w x y : Word => ((w ||| x) &&& y) ||| (w &&& x)) = maj := by
    funext w x y
    exact either_eq_maj w x y
  unfold roundAt
  by_cases h16 : t < 16
  · rw [if_pos h16]
    have h20 : t < 20 := by omega
    refine reached_roundMacro hs ?_ ?_ (expanded_blk0 hs.block h16)
    · rw [hch, roundFunction, if_pos h20]
    · rw [roundConstant, if_pos h20]
  · have hexpand := expanded_blk hs.block (Nat.le_of_not_lt h16)
    rw [if_neg h16]
    by_cases h20 : t < 20
    · rw [if_pos h20]
      refine reached_roundMacro hs ?_ ?_ hexpand
      · rw [hch, roundFunction, if_pos h20]
      · rw [roundConstant, if_pos h20]
    · rw [if_neg h20]
      by_cases h40 : t < 40
      · rw [if_pos h40]
        refine reached_roundMacro hs ?_ ?_ hexpand
        · rw [roundFunction, if_neg h20, if_pos h40]
          rfl
        · rw [roundConstant, if_neg h20, if_pos h40]
      · rw [if_neg h40]
        by_cases h60 : t < 60
        · rw [if_pos h60]
          refine reached_roundMacro hs ?_ ?_ hexpand
          · rw [hmaj, roundFunction, if_neg h20, if_neg h40, if_pos h60]
          · rw [roundConstant, if_neg h20, if_neg h40, if_pos h60]
        · rw [if_neg h60]
          refine reached_roundMacro hs ?_ ?_ hexpand
          · rw [roundFunction, if_neg h20, if_neg h40, if_neg h60]
            rfl
          · rw [roundConstant, if_neg h20, if_neg h40, if_neg h60]

theorem reached_foldl {block : List Byte} {h : State} {s : Locals} (hs : Reached block h 0 s)
    (t : Nat) :
    Reached block h t (((List.range t).map roundAt).foldl (fun s round => round s) s) := by
  induction t with
  | zero => exact hs
  | succ t ih =>
      rw [List.range_succ, List.map_append, List.foldl_append]
      exact reached_roundAt ih

/-- `SHA1Transform` is the compression function of the standard. -/
theorem sha1Transform_eq (state : State) {buffer : List Byte} (h : 64 ≤ buffer.length) :
    sha1Transform state buffer = some (compress state (buffer.take 64)) := by
  have hread : readAt buffer 0 64 = some (buffer.take 64) := by
    rw [readAt, if_pos (by omega), List.drop_zero]
  have hstart : Reached (buffer.take 64) state 0
      { vars := workingVars state, block := blockWords (buffer.take 64) } := by
    refine ⟨rfl, fun _ _ _ => rfl, ?_⟩
    intro j hj
    exact absurd hj (Nat.not_lt_zero j)
  have hvars := (reached_foldl hstart 80).vars
  unfold sha1Transform
  rw [hread, transformRounds_eq, compress, ← hvars]
  simp only [Option.bind_eq_bind, Option.bind_some]
  generalize ((List.range 80).map roundAt).foldl (fun s round => round s) _ = s
  rfl

/-! ## Feeding a context -/

/-- What a context holds after it was fed `message`. -/
structure Absorbed (context : Sha1Ctx) (message : List Byte) : Prop where
  size : context.buffer.length = 64
  count : context.count1 ++ context.count0 = BitVec.ofNat 64 (8 * message.length)
  parts : ∃ front rest, message = front ++ rest ∧ 64 ∣ front.length ∧ rest.length < 64 ∧
    context.state = absorb compress 64 initial front ∧ context.buffer.take rest.length = rest

theorem absorbed_sha1Init {context : Sha1Ctx} (h : context.buffer.length = 64) :
    Absorbed (sha1Init context) [] := by
  have hcount : (0 : Word) ++ (0 : Word) = BitVec.ofNat 64 (8 * 0) := by decide
  refine ⟨h, hcount, [], [], rfl, ⟨0, rfl⟩, by decide, ?_, rfl⟩
  rw [absorb_short compress 64 initial _ (by decide)]
  rfl

theorem toNat_append_words (high low : Word) :
    (high ++ low).toNat = high.toNat * 2 ^ 32 + low.toNat := by
  rw [BitVec.toNat_append, Nat.shiftLeft_eq, Nat.mul_comm, Nat.two_pow_add_eq_or_of_lt low.isLt]

theorem split_mod (high low : Nat) (h : low < 2 ^ 32) :
    (high * 2 ^ 32 + low) % 2 ^ 64 = high % 2 ^ 32 * 2 ^ 32 + low := by
  omega

/-- Adding `8 * n` to a counter of two words, with the carry found by comparing. -/
theorem carry_arith {low high n m : Nat} (hlow : low < 2 ^ 32)
    (hcount : high * 2 ^ 32 + low = 8 * m % 2 ^ 64) :
    ((if (low + 8 * n % 2 ^ 32) % 2 ^ 32 < low then (high + 1) % 2 ^ 32 else high) +
        n / 2 ^ 29) % 2 ^ 32 * 2 ^ 32 + (low + 8 * n % 2 ^ 32) % 2 ^ 32 =
      8 * (m + n) % 2 ^ 64 := by
  have hsum : 8 * (m + n) % 2 ^ 64 = (high * 2 ^ 32 + low + 8 * n) % 2 ^ 64 := by
    rw [Nat.mul_add, hcount, Nat.mod_add_mod]
  have hparts : 8 * n = n / 2 ^ 29 * 2 ^ 32 + 8 * n % 2 ^ 32 := by omega
  have hpart : 8 * n % 2 ^ 32 < 2 ^ 32 := Nat.mod_lt _ (by decide)
  rw [hsum]
  clear hcount hsum
  generalize n / 2 ^ 29 = excess at hparts
  generalize 8 * n % 2 ^ 32 = part at hparts hpart
  rw [hparts]
  split
  · rename_i hcarry
    have hwrapped : low + part = 2 ^ 32 + (low + part) % 2 ^ 32 := by omega
    have hregroup : high * 2 ^ 32 + low + (excess * 2 ^ 32 + part) =
        (high + 1 + excess) * 2 ^ 32 + (low + part) % 2 ^ 32 := by omega
    rw [hregroup, split_mod _ _ (Nat.mod_lt _ (by decide)), Nat.mod_add_mod]
  · rename_i hcarry
    have hsame : low + part = (low + part) % 2 ^ 32 := by omega
    have hregroup : high * 2 ^ 32 + low + (excess * 2 ^ 32 + part) =
        (high + excess) * 2 ^ 32 + (low + part) % 2 ^ 32 := by omega
    rw [hregroup, split_mod _ _ (Nat.mod_lt _ (by decide))]

section Update

variable {context : Sha1Ctx} {message : List Byte}

theorem Absorbed.count_toNat (h : Absorbed context message) :
    context.count1.toNat * 2 ^ 32 + context.count0.toNat = 8 * message.length % 2 ^ 64 := by
  have hcount := congrArg BitVec.toNat h.count
  rwa [toNat_append_words, BitVec.toNat_ofNat] at hcount

/-- Where the next byte goes in the buffer. -/
theorem Absorbed.position (h : Absorbed context message) :
    ((context.count0 >>> 3) &&& 63).toNat = message.length % 64 := by
  have hcount := h.count_toNat
  have hlow := context.count0.isLt
  rw [BitVec.toNat_and, BitVec.toNat_ushiftRight, Nat.shiftRight_eq_div_pow]
  rw [show (63 : Word).toNat = 2 ^ 6 - 1 from rfl, Nat.and_two_pow_sub_one_eq_mod]
  omega

/-- The carry into the high word of the counter. -/
theorem count_update (h : Absorbed context message) (len : Word) :
    ((if context.count0 + (len <<< 3) < context.count0 then context.count1 + 1
        else context.count1) + (len >>> 29)) ++ (context.count0 + (len <<< 3)) =
      BitVec.ofNat 64 (8 * (message.length + len.toNat)) := by
  have hshift : (len <<< 3).toNat = 8 * len.toNat % 2 ^ 32 := by
    rw [BitVec.toNat_shiftLeft, Nat.shiftLeft_eq, Nat.mul_comm]
  have hover : (len >>> 29).toNat = len.toNat / 2 ^ 29 := by
    rw [BitVec.toNat_ushiftRight, Nat.shiftRight_eq_div_pow]
  apply BitVec.eq_of_toNat_eq
  rw [toNat_append_words, BitVec.toNat_ofNat, ← carry_arith context.count0.isLt h.count_toNat,
    BitVec.toNat_add, BitVec.toNat_add, hshift, hover]
  simp only [apply_ite BitVec.toNat, BitVec.lt_def, BitVec.toNat_add, hshift]
  rfl

/-- A copy of fewer than `2 ^ 31` bytes. -/
theorem memcpy_eq {dst src : List Byte} {offset : Nat} {size : Word} (hsize : size.toNat < 2 ^ 31)
    (hsrc : size.toNat ≤ src.length) (hdst : offset + size.toNat ≤ dst.length) :
    memcpy dst offset src size =
      some (dst.take offset ++ src.take size.toNat ++ dst.drop (offset + size.toNat)) := by
  have hint : size.toInt.toNat = size.toNat := by
    rw [BitVec.toInt_eq_toNat_of_lt (by omega), Int.toNat_natCast]
  have hlength : (src.take size.toNat).length = size.toNat := List.length_take_of_le hsrc
  unfold memcpy readAt writeAt
  rw [hint, if_pos (by omega), List.drop_zero]
  simp only [Option.bind_eq_bind, Option.bind_some, hlength]
  rw [if_pos hdst]

/-- The loop over whole blocks absorbs them. -/
theorem transformBlocks_eq {chunk : List Byte} (extra : List Byte) {len : Word}
    (hchunk : chunk.length = len.toNat) (hlen : len.toNat + 63 < 2 ^ 32) (rounds : Nat)
    (state : State) (i : Word) (hi : i.toNat ≤ len.toNat)
    (hrounds : (len.toNat - i.toNat) / 64 < rounds) :
    ∃ i', transformBlocks (chunk ++ extra) len rounds state i =
        some (absorb compress 64 state (chunk.drop i.toNat), i') ∧
      i'.toNat = i.toNat + 64 * ((len.toNat - i.toNat) / 64) := by
  induction rounds generalizing state i with
  | zero => exact absurd hrounds (Nat.not_lt_zero _)
  | succ rounds ih =>
      have hnext : (i + 63).toNat = i.toNat + 63 := by
        rw [BitVec.toNat_add, show (63 : Word).toNat = 63 from rfl]
        exact Nat.mod_eq_of_lt (by omega)
      have hlength : (chunk.drop i.toNat).length = len.toNat - i.toNat := by
        rw [List.length_drop, hchunk]
      unfold transformBlocks
      by_cases hmore : i + 63 < len
      · have hlt : i.toNat + 63 < len.toNat := by
          rwa [BitVec.lt_def, hnext] at hmore
        have hstep : (i + 64).toNat = i.toNat + 64 := by
          rw [BitVec.toNat_add, show (64 : Word).toNat = 64 from rfl]
          exact Nat.mod_eq_of_lt (by omega)
        have hblock : ((chunk.drop i.toNat).take 64).length = 64 := by
          rw [List.length_take, hlength]
          omega
        have htake : ((chunk ++ extra).drop i.toNat).take 64 = (chunk.drop i.toNat).take 64 := by
          rw [List.drop_append_of_le_length (by omega), List.take_append_of_le_length (by omega)]
        have htransform : sha1Transform state ((chunk ++ extra).drop i.toNat) =
            some (compress state ((chunk.drop i.toNat).take 64)) := by
          rw [sha1Transform_eq, htake]
          rw [List.length_drop, List.length_append]
          omega
        obtain ⟨i', hrun, hi'⟩ := ih (compress state ((chunk.drop i.toNat).take 64)) (i + 64)
          (by omega) (by omega)
        refine ⟨i', ?_, by omega⟩
        rw [if_pos hmore, htransform]
        simp only [Option.bind_eq_bind, Option.bind_some]
        rw [hrun, hstep, ← absorb_block compress 64 state hblock (by decide), ← List.drop_drop,
          List.take_append_drop]
      · have hge : len.toNat ≤ i.toNat + 63 := by
          rw [BitVec.lt_def, hnext] at hmore
          omega
        refine ⟨i, ?_, by omega⟩
        rw [if_neg hmore, absorb_short]
        omega

/-- The counters after an update. -/
def countedHigh (context : Sha1Ctx) (len : Word) : Word :=
  (if context.count0 + (len <<< 3) < context.count0 then context.count1 + 1 else context.count1) +
    (len >>> 29)

def countedLow (context : Sha1Ctx) (len : Word) : Word :=
  context.count0 + (len <<< 3)

theorem counted {chunk : List Byte} {len : Word} (h : Absorbed context message)
    (hchunk : chunk.length = len.toNat) :
    countedHigh context len ++ countedLow context len =
      BitVec.ofNat 64 (8 * (message ++ chunk).length) := by
  rw [List.length_append, hchunk]
  exact count_update h len

section Piece

variable {front rest chunk extra : List Byte} {len : Word} {blocks : Nat}
  (hmessage : message = front ++ rest) (hblocks : front.length = 64 * blocks)
  (hrest : rest.length < 64) (hstate : context.state = absorb compress 64 initial front)
  (hbuffer : context.buffer.take rest.length = rest)
  (hposition : ((context.count0 >>> 3) &&& 63).toNat = rest.length)
  (hchunk : chunk.length = len.toNat)
include hmessage hblocks hrest hstate hbuffer hposition hchunk

/-- A piece that leaves the buffer short of a block. -/
theorem absorbed_fits (h : Absorbed context message) (hshort : rest.length + len.toNat < 64) :
    ∃ context', sha1Update context (chunk ++ extra) len = some context' ∧
      Absorbed context' (message ++ chunk) := by
  have hsize := h.size
  have hcounted := counted h hchunk
  unfold sha1Update
  simp only
  set j := (context.count0 >>> 3) &&& 63
  have hfits : ¬63 < j + len := by
    rw [BitVec.lt_def, BitVec.toNat_add, hposition, show (63 : Word).toNat = 63 from rfl,
      Nat.mod_eq_of_lt (by omega)]
    omega
  have hcopy : memcpy context.buffer j.toNat (chunk ++ extra) len =
      some (rest ++ chunk ++ context.buffer.drop (rest.length + len.toNat)) := by
    rw [memcpy_eq (by omega) (by rw [List.length_append]; omega) (by omega), hposition, hbuffer,
      ← hchunk, List.take_left]
  rw [if_neg hfits, hcopy]
  refine ⟨_, rfl, ?_, hcounted, front, rest ++ chunk, ?_, ⟨blocks, hblocks⟩, ?_, hstate, ?_⟩
  · simp only [List.length_append, List.length_drop]
    omega
  · rw [hmessage, List.append_assoc]
  · rw [List.length_append]
    omega
  · exact List.take_left

omit hmessage hbuffer hposition in
/-- What the loop absorbs is whole blocks; the rest of the piece stays behind. -/
theorem absorb_pieces {i : Nat} (hlong : 64 ≤ rest.length + len.toNat)
    (hi : i = 64 - rest.length + 64 * ((len.toNat - (64 - rest.length)) / 64)) :
    absorb compress 64 (compress context.state (rest ++ chunk.take (64 - rest.length)))
        (chunk.drop (64 - rest.length)) =
      absorb compress 64 initial (front ++ (rest ++ chunk.take i)) := by
  have hblock : (rest ++ chunk.take (64 - rest.length)).length = 64 := by
    rw [List.length_append, List.length_take]
    omega
  have hsplit : chunk.take i = chunk.take (64 - rest.length) ++
      (chunk.drop (64 - rest.length)).take (i - (64 - rest.length)) := by
    rw [← List.take_add]
    congr 1
    omega
  have hwhole : 64 ∣ ((chunk.drop (64 - rest.length)).take (i - (64 - rest.length))).length := by
    rw [List.length_take, List.length_drop]
    omega
  have hleft : ((chunk.drop (64 - rest.length)).drop (i - (64 - rest.length))).length < 64 := by
    rw [List.length_drop, List.length_drop]
    omega
  rw [absorb_append compress 64 initial (by decide) ⟨blocks, hblocks⟩, ← hstate, hsplit,
    ← List.append_assoc, absorb_block compress 64 _ hblock (by decide)]
  conv_lhs => rw [← List.take_append_drop (i - (64 - rest.length)) (chunk.drop (64 - rest.length))]
  rw [absorb_append compress 64 _ (by decide) hwhole, absorb_short compress 64 _ _ hleft]

/-- A piece that fills the buffer at least once. -/
theorem absorbed_fills (h : Absorbed context message) (hlen : len.toNat + 63 < 2 ^ 32)
    (hlong : 64 ≤ rest.length + len.toNat) :
    ∃ context', sha1Update context (chunk ++ extra) len = some context' ∧
      Absorbed context' (message ++ chunk) := by
  have hsize := h.size
  have hcounted := counted h hchunk
  unfold sha1Update
  simp only
  set j := (context.count0 >>> 3) &&& 63
  have hfull : 63 < j + len := by
    rw [BitVec.lt_def, BitVec.toNat_add, hposition, show (63 : Word).toNat = 63 from rfl,
      Nat.mod_eq_of_lt (by omega)]
    omega
  have hroom : (64 - j).toNat = 64 - rest.length := by
    rw [BitVec.toNat_sub_of_le, hposition]
    · rfl
    · rw [BitVec.le_def, hposition]
      exact hrest.le
  have hcopy : memcpy context.buffer j.toNat (chunk ++ extra) (64 - j) =
      some (rest ++ chunk.take (64 - rest.length)) := by
    rw [memcpy_eq (by omega) (by rw [List.length_append]; omega) (by omega), hroom, hposition,
      hbuffer, List.take_append_of_le_length (by omega), List.drop_eq_nil_of_le (by omega),
      List.append_nil]
  have hblock : (rest ++ chunk.take (64 - rest.length)).length = 64 := by
    rw [List.length_append, List.length_take]
    omega
  have htransform := sha1Transform_eq context.state hblock.ge
  rw [List.take_of_length_le hblock.le] at htransform
  obtain ⟨i, hloop, hi⟩ := transformBlocks_eq extra hchunk hlen
    (len.toNat / 64 + 2) (compress context.state (rest ++ chunk.take (64 - rest.length)))
    (64 - j) (by omega) (by omega)
  rw [hroom] at hi
  have hleft : (len - i).toNat = len.toNat - i.toNat := by
    apply BitVec.toNat_sub_of_le
    rw [BitVec.le_def]
    omega
  have hlast : memcpy (rest ++ chunk.take (64 - rest.length)) 0 ((chunk ++ extra).drop i.toNat)
      (len - i) = some (chunk.drop i.toNat ++
        (rest ++ chunk.take (64 - rest.length)).drop (len.toNat - i.toNat)) := by
    have htail : (chunk.drop i.toNat).length = len.toNat - i.toNat := by
      rw [List.length_drop, hchunk]
    rw [memcpy_eq (by omega) (by rw [List.length_drop, List.length_append]; omega) (by omega),
      hleft, List.take_zero, List.nil_append, Nat.zero_add,
      List.drop_append_of_le_length (by omega), ← htail, List.take_left]
  rw [if_pos hfull, hcopy]
  simp only [Option.bind_eq_bind, Option.bind_some]
  rw [htransform]
  simp only [Option.bind_some]
  rw [hloop]
  simp only [Option.bind_some]
  rw [hlast]
  refine ⟨_, rfl, ?_, hcounted, front ++ (rest ++ chunk.take i.toNat), chunk.drop i.toNat,
    ?_, ?_, ?_, ?_, ?_⟩
  · simp only [List.length_append, List.length_drop] at hblock ⊢
    omega
  · rw [List.append_assoc, List.append_assoc, List.take_append_drop, hmessage, List.append_assoc]
  · rw [List.length_append, List.length_append, List.length_take]
    omega
  · rw [List.length_drop]
    omega
  · simp only [hroom]
    exact absorb_pieces hblocks hrest hstate hchunk hlong hi
  · simp only
    rw [List.take_append_of_le_length le_rfl, List.take_length]

end Piece

/-- `SHA1Update` feeds the context one more piece. -/
theorem absorbed_sha1Update (h : Absorbed context message) (chunk extra : List Byte) {len : Word}
    (hchunk : chunk.length = len.toNat) (hlen : len.toNat + 63 < 2 ^ 32) :
    ∃ context', sha1Update context (chunk ++ extra) len = some context' ∧
      Absorbed context' (message ++ chunk) := by
  obtain ⟨front, rest, hmessage, ⟨blocks, hblocks⟩, hrest, hstate, hbuffer⟩ := h.parts
  have hposition : ((context.count0 >>> 3) &&& 63).toNat = rest.length := by
    have hmod : message.length % 64 = rest.length := by
      rw [hmessage, List.length_append, hblocks]
      omega
    rw [h.position, hmod]
  rcases Nat.lt_or_ge (rest.length + len.toNat) 64 with hshort | hlong
  · exact absorbed_fits hmessage hblocks hrest hstate hbuffer hposition hchunk h hshort
  · exact absorbed_fills hmessage hblocks hrest hstate hbuffer hposition hchunk h hlen hlong

end Update

/-! ## The digest -/

theorem byteOf_eq_extract (w : Word) (k : Nat) :
    ((w >>> k) &&& 255).setWidth 8 = w.extractLsb' k 8 := by
  apply BitVec.eq_of_getLsbD_eq
  intro i hi
  have hmask : (255 : Word).getLsbD i = true := by interval_cases i <;> rfl
  simp only [BitVec.getLsbD_setWidth, BitVec.getLsbD_and, BitVec.getLsbD_ushiftRight,
    BitVec.getLsbD_extractLsb', hmask, Bool.and_true, hi, decide_true, Bool.true_and]

/-- The counter, as `SHA1Final` reads it before it pads. -/
theorem finalcount_eq {context : Sha1Ctx} {message : List Byte} (h : Absorbed context message) :
    finalcount context = lengthBytes message.length := by
  have hhigh : (context.count1 ++ context.count0).extractLsb' 32 32 = context.count1 :=
    BitVec.extractLsb'_append_eq_left
  have hlow : (context.count1 ++ context.count0).extractLsb' 0 32 = context.count0 :=
    BitVec.extractLsb'_append_eq_right
  have hbytes : ∀ w : Word, wordBytes w = [24, 16, 8, 0].map fun k =>
      ((w >>> k) &&& 255).setWidth 8 := by
    intro w
    simp only [List.map_cons, List.map_nil, wordBytes, byteOf_eq_extract]
  rw [lengthBytes, ← h.count]
  simp only [hhigh, hlow, hbytes]
  rfl

/-- The zeros the loop of `SHA1Final` adds. -/
def zerosNeeded (length : Nat) : Nat :=
  (120 - length % 64) % 64

theorem and_504 (w : Word) : w &&& (504 : Word) = ((w >>> 3) &&& (63 : Word)) <<< 3 := by
  apply BitVec.eq_of_getLsbD_eq
  intro i hi
  interval_cases i <;> simp

theorem padZeros_done_iff {context : Sha1Ctx} {message : List Byte}
    (h : Absorbed context message) :
    context.count0 &&& 504 ≠ 448 ↔ zerosNeeded message.length ≠ 0 := by
  have hposition := h.position
  have hlt : message.length % 64 < 64 := Nat.mod_lt _ (by decide)
  have hshifted : (((context.count0 >>> 3) &&& 63) <<< 3).toNat = 8 * (message.length % 64) := by
    rw [BitVec.toNat_shiftLeft, hposition, Nat.shiftLeft_eq]
    omega
  rw [and_504, ne_eq, ← BitVec.toNat_inj, hshifted, show (448 : Word).toNat = 448 from rfl,
    zerosNeeded]
  omega

theorem absorbed_padZeros (rounds : Nat) {context : Sha1Ctx} {message : List Byte}
    (h : Absorbed context message) (hrounds : zerosNeeded message.length < rounds) :
    ∃ context', padZeros rounds context = some context' ∧
      Absorbed context' (message ++ List.replicate (zerosNeeded message.length) 0) := by
  induction rounds generalizing context message with
  | zero => exact absurd hrounds (Nat.not_lt_zero _)
  | succ rounds ih =>
      unfold padZeros
      by_cases hdone : zerosNeeded message.length = 0
      · rw [if_neg ((padZeros_done_iff h).not.mpr (not_not.mpr hdone)), hdone]
        refine ⟨context, rfl, ?_⟩
        rwa [List.replicate_zero, List.append_nil]
      · obtain ⟨next, hupdate, hnext⟩ :=
          absorbed_sha1Update h [0] [] (show 1 = (1 : Word).toNat from rfl) (by decide)
        have hone : zerosNeeded (message ++ [0]).length + 1 = zerosNeeded message.length := by
          rw [List.length_append, List.length_singleton]
          unfold zerosNeeded at hdone ⊢
          omega
        obtain ⟨context', hrun, hcontext'⟩ := ih hnext (by omega)
        refine ⟨context', ?_, ?_⟩
        · rw [if_pos ((padZeros_done_iff h).mpr hdone)]
          rw [List.append_nil] at hupdate
          simp only [hupdate, Option.bind_eq_bind, Option.bind_some]
          exact hrun
        · rw [← hone, List.replicate_succ, List.append_cons]
          exact hcontext'

/-- The bytes `SHA1Final` takes from the state. -/
theorem stateBytes_eq (state : State) :
    ((List.range 20).map fun i =>
      ((stateWord state (i >>> 2) >>> ((3 - (i &&& 3)) * 8)) &&& 255).setWidth 8) =
      stateBytes state := by
  have hbytes : ∀ w : Word, [24, 16, 8, 0].map (fun k => ((w >>> k) &&& 255).setWidth 8) =
      wordBytes w := by
    intro w
    simp only [List.map_cons, List.map_nil, wordBytes, byteOf_eq_extract]
  simp only [stateBytes, ← hbytes]
  rfl

/-- `SHA1Final` delivers the digest of everything the context was fed. -/
theorem sha1Final_eq {context : Sha1Ctx} {message : List Byte} (h : Absorbed context message) :
    sha1Final context = some (digest message, wipedCtx) := by
  obtain ⟨context₁, hone, h₁⟩ :=
    absorbed_sha1Update h [0x80] [] (show 1 = (1 : Word).toNat from rfl) (by decide)
  obtain ⟨context₂, hzeros, h₂⟩ := absorbed_padZeros 64 h₁ (Nat.mod_lt _ (by decide))
  obtain ⟨context₃, hlength, h₃⟩ := absorbed_sha1Update h₂ (lengthBytes message.length) []
    (show 8 = (8 : Word).toNat from rfl) (by decide)
  rw [List.append_nil] at hone hlength
  have hpadded : message ++ [0x80] ++
      List.replicate (zerosNeeded (message ++ [0x80]).length) 0 ++ lengthBytes message.length =
      pad message := by
    have hcount : zerosNeeded (message ++ [0x80]).length = (119 - message.length % 64) % 64 := by
      rw [List.length_append, List.length_singleton, zerosNeeded]
      omega
    rw [hcount, pad, paddingBytes, ← List.append_cons]
  rw [hpadded] at h₃
  -- the padded message is whole blocks, so nothing is left in the buffer
  obtain ⟨front, rest, hsplit, ⟨blocks, hblocks⟩, hrest, hstate, -⟩ := h₃.parts
  have hwhole : (pad message).length % 64 = 0 := by
    rw [pad, List.length_append, List.length_append, length_paddingBytes, length_lengthBytes]
    omega
  have hempty : rest = [] := by
    rw [hsplit, List.length_append, hblocks] at hwhole
    exact List.length_eq_zero_iff.mp (by omega)
  rw [hempty, List.append_nil] at hsplit
  unfold sha1Final
  simp only [finalcount_eq h, hone, hzeros, hlength, Option.bind_eq_bind, Option.bind_some,
    stateBytes_eq, hstate, ← hsplit]
  rfl

/-! ## Whole messages -/

/-- Feed a context one piece after another. -/
def updateAll (context : Sha1Ctx) : List (List Byte) → Option Sha1Ctx
  | [] => some context
  | chunk :: chunks => do
      let context ← sha1Update context chunk (BitVec.ofNat 32 chunk.length)
      updateAll context chunks

theorem absorbed_updateAll (chunks : List (List Byte)) {context : Sha1Ctx} {message : List Byte}
    (h : Absorbed context message) (hchunks : ∀ chunk ∈ chunks, chunk.length + 63 < 2 ^ 32) :
    ∃ context', updateAll context chunks = some context' ∧
      Absorbed context' (message ++ chunks.flatten) := by
  induction chunks generalizing context message with
  | nil => exact ⟨context, rfl, by rwa [List.flatten_nil, List.append_nil]⟩
  | cons chunk chunks ih =>
      have hshort := hchunks chunk List.mem_cons_self
      have hlen : (BitVec.ofNat 32 chunk.length).toNat = chunk.length := by
        rw [BitVec.toNat_ofNat]
        exact Nat.mod_eq_of_lt (by omega)
      obtain ⟨next, hupdate, hnext⟩ :=
        absorbed_sha1Update h chunk [] hlen.symm (by rwa [hlen])
      obtain ⟨context', hrest, hcontext'⟩ :=
        ih hnext fun chunk hmem => hchunks chunk (List.mem_cons_of_mem _ hmem)
      rw [List.append_nil] at hupdate
      refine ⟨context', ?_, ?_⟩
      · unfold updateAll
        simp only [hupdate, Option.bind_eq_bind, Option.bind_some]
        exact hrest
      · rw [List.flatten_cons, ← List.append_assoc]
        exact hcontext'

/--
However a message is cut into pieces, feeding them to a fresh context one after
another and finishing it delivers the SHA-1 digest of the whole.  No piece may
come within 63 bytes of the range of its length.
-/
theorem streaming_digest (context : Sha1Ctx) (hbuffer : context.buffer.length = 64)
    (chunks : List (List Byte)) (hchunks : ∀ chunk ∈ chunks, chunk.length + 63 < 2 ^ 32) :
    ∃ context', updateAll (sha1Init context) chunks = some context' ∧
      sha1Final context' = some (digest chunks.flatten, wipedCtx) := by
  obtain ⟨context', hupdate, hcontext'⟩ :=
    absorbed_updateAll chunks (absorbed_sha1Init hbuffer) hchunks
  rw [List.nil_append] at hcontext'
  exact ⟨context', hupdate, sha1Final_eq hcontext'⟩

theorem absorbed_sha1Bytes {str : List Byte} {len : Word} (hlen : str.length = len.toNat)
    (rounds : Nat) (ii : Word) {context : Sha1Ctx} (h : Absorbed context (str.take ii.toNat))
    (hii : ii.toNat ≤ len.toNat) (hrounds : len.toNat - ii.toNat < rounds) :
    ∃ context', sha1Bytes str len rounds ii context = some context' ∧ Absorbed context' str := by
  induction rounds generalizing ii context with
  | zero => exact absurd hrounds (Nat.not_lt_zero _)
  | succ rounds ih =>
      unfold sha1Bytes
      by_cases hmore : ii < len
      · have hlt : ii.toNat < str.length := by
          rwa [BitVec.lt_def, ← hlen] at hmore
        have hstep : (ii + 1).toNat = ii.toNat + 1 := by
          have := len.isLt
          rw [BitVec.toNat_add, show (1 : Word).toNat = 1 from rfl]
          exact Nat.mod_eq_of_lt (by omega)
        have hdrop : str.drop ii.toNat = [str.get ⟨ii.toNat, hlt⟩] ++ str.drop (ii.toNat + 1) :=
          List.drop_eq_getElem_cons hlt
        obtain ⟨next, hupdate, hnext⟩ := absorbed_sha1Update h [str.get ⟨ii.toNat, hlt⟩]
          (str.drop (ii.toNat + 1)) (show 1 = (1 : Word).toNat from rfl) (by decide)
        have htake : str.take ii.toNat ++ [str.get ⟨ii.toNat, hlt⟩] = str.take (ii + 1).toNat := by
          rw [hstep]
          exact List.take_concat_get' str ii.toNat hlt
        rw [htake] at hnext
        obtain ⟨context', hrun, hcontext'⟩ := ih _ hnext (by omega) (by omega)
        refine ⟨context', ?_, hcontext'⟩
        rw [if_pos hmore, hdrop]
        simp only [hupdate, Option.bind_eq_bind, Option.bind_some]
        exact hrun
      · have hall : str.length ≤ ii.toNat := by
          rw [BitVec.lt_def] at hmore
          omega
        refine ⟨context, if_neg hmore, ?_⟩
        rwa [List.take_of_length_le hall] at h

/--
`SHA1` of a message writes its SHA-1 digest and a terminator, whatever its
context held before.
-/
theorem sha1_eq_digest (ctx : Sha1Ctx) (hbuffer : ctx.buffer.length = 64) (message : List Byte)
    (hmessage : message.length < 2 ^ 32) :
    sha1 ctx message (BitVec.ofNat 32 message.length) = some (digest message ++ [0]) := by
  have hlen : (BitVec.ofNat 32 message.length).toNat = message.length := by
    rw [BitVec.toNat_ofNat]
    exact Nat.mod_eq_of_lt hmessage
  obtain ⟨context', hrun, hcontext'⟩ := absorbed_sha1Bytes hlen.symm
    ((BitVec.ofNat 32 message.length).toNat + 1) 0 (absorbed_sha1Init hbuffer)
    (Nat.zero_le _) (Nat.lt_succ_of_le (Nat.sub_le _ _))
  unfold sha1
  simp only [hrun, sha1Final_eq hcontext', Option.bind_eq_bind, Option.bind_some]
  rfl

/-- An uninitialised context. -/
def stackCtx : Sha1Ctx :=
  { state := { a := 1, b := 2, c := 3, d := 4, e := 5 }
    count0 := 6
    count1 := 7
    buffer := List.replicate 64 0xa5 }

theorem streaming_digest_abc :
    ∃ context', updateAll (sha1Init stackCtx) [[0x61], [0x62, 0x63]] = some context' ∧
      sha1Final context' = some (digest [0x61, 0x62, 0x63], wipedCtx) :=
  streaming_digest stackCtx rfl [[0x61], [0x62, 0x63]] (by decide)

theorem sha1_eq_digest_abc :
    sha1 stackCtx [0x61, 0x62, 0x63] 3 = some (digest [0x61, 0x62, 0x63] ++ [0]) :=
  sha1_eq_digest stackCtx rfl [0x61, 0x62, 0x63] (by decide)

end Zelda.Proofs.Sha1
