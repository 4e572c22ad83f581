import Zelda.Proofs.ArrayMacros
import Zelda.Proofs.MappingArray
import Zelda.Vmm.Breakpoints
/-!
# The breakpoint set

`addr_cmp` is the sign of a wrapped difference, as in the pc mapping array.  On
breakpoints that lie in one half of the address space it is an order, and the
sorted table is exactly the set of the addresses that were added.
-/

namespace Zelda.Proofs.BreakpointSet

open Zelda.Vmm
open Zelda.Proofs.ArrayMacros
open Zelda.Proofs.MappingArray (InWindow comparingMappingItem_eq
  eq_of_comparingMappingItem_eq_zero)

/-! ## The comparator -/

section Comparator

variable {base a b : Word} {addresses : List Word}

theorem addrCmp_eq (ha : InWindow base a) (hb : InWindow base b) :
    addrCmp a b = (a - base).toNat - (b - base).toNat :=
  comparingMappingItem_eq ha hb

theorem eq_of_addrCmp_eq_zero (h : addrCmp a b = 0) : a = b :=
  eq_of_comparingMappingItem_eq_zero h

@[simp] theorem addrCmp_self (a : Word) : addrCmp a a = 0 := by
  simp [addrCmp]

/-- In one half of the address space the comparator orders the addresses. -/
theorem totalPreorder_addrCmp (h : ∀ a ∈ addresses, InWindow base a) :
    TotalPreorder addrCmp addresses := by
  constructor
  · intro a ha b hb
    rw [addrCmp_eq (h a ha) (h b hb), addrCmp_eq (h b hb) (h a ha)]
    omega
  · intro a ha b hb c hc
    rw [addrCmp_eq (h a ha) (h b hb), addrCmp_eq (h b hb) (h c hc), addrCmp_eq (h a ha) (h c hc)]
    omega

end Comparator

/-! ## The table -/

/-- What the table of breakpoints has to be for its searches to be exact. -/
structure Sound (breakpoints : List Word) : Prop where
  window : ∃ base, ∀ a ∈ breakpoints, InWindow base a
  ascending : Ascending addrCmp breakpoints
  distinct : breakpoints.Nodup

theorem sound_nil : Sound [] :=
  ⟨⟨0, fun _ h => absurd h List.not_mem_nil⟩, .nil, .nil⟩

section Table

variable {breakpoints : List Word} {a : Word}

/-- A search finds what the table holds and nothing else. -/
theorem Sound.isAddressBreakpoint_iff (h : Sound breakpoints) (a : Word) :
    isAddressBreakpoint breakpoints a = true ↔ a ∈ breakpoints := by
  obtain ⟨found, hfound, hsound⟩ := search_returns breakpoints addrCmp a
  unfold isAddressBreakpoint
  rw [hfound, Option.join_some]
  constructor
  · intro hsome
    obtain ⟨b, rfl⟩ := Option.isSome_iff_exists.mp hsome
    obtain ⟨hmem, hzero⟩ := hsound b rfl
    rw [eq_of_addrCmp_eq_zero hzero]
    exact hmem
  · intro hmem
    obtain ⟨base, hwindow⟩ := h.window
    have horder : TotalPreorder addrCmp (a :: breakpoints) := by
      apply @totalPreorder_addrCmp base
      intro b hb
      rcases List.mem_cons.mp hb with rfl | hb
      · exact hwindow b hmem
      · exact hwindow b hb
    have hhit := search_isSome_of_mem horder h.ascending hmem (addrCmp_self a)
    rw [hfound] at hhit
    exact Option.isSome_iff_ne_none.mpr fun hnone => hhit (by rw [hnone])

/-- Every return of `add_breakpoint`, with what it leaves. -/
theorem addBreakpoint_cases (breakpoints : List Word) (a : Word) :
    a &&& 0x3 ≠ 0 ∧ addBreakpoint breakpoints a = (-2, breakpoints) ∨
    a &&& 0x3 = 0 ∧ MAX_BREAKPOINTS ≤ breakpoints.length ∧
      addBreakpoint breakpoints a = (-1, breakpoints) ∨
    a &&& 0x3 = 0 ∧ isAddressBreakpoint breakpoints a = true ∧
      addBreakpoint breakpoints a = (0, breakpoints) ∨
    a &&& 0x3 = 0 ∧ breakpoints.length < MAX_BREAKPOINTS ∧
      isAddressBreakpoint breakpoints a = false ∧
      addBreakpoint breakpoints a =
        (0, breakpoints.insertIdx (position addrCmp breakpoints a) a) := by
  unfold addBreakpoint
  by_cases haligned : a &&& 0x3 = 0
  · rw [if_neg (not_not.mpr haligned)]
    by_cases hfull : MAX_BREAKPOINTS ≤ breakpoints.length
    · rw [if_pos hfull]
      exact .inr (.inl ⟨haligned, hfull, rfl⟩)
    · rw [if_neg hfull]
      cases hset : isAddressBreakpoint breakpoints a with
      | true => exact .inr (.inr (.inl ⟨haligned, rfl, rfl⟩))
      | false =>
          refine .inr (.inr (.inr ⟨haligned, Nat.not_le.mp hfull, rfl, ?_⟩))
          simp only [insertionSort_eq]
          rfl
  · rw [if_pos haligned]
    exact .inl ⟨haligned, rfl⟩

theorem mem_insertIdx_position {b : Word} :
    b ∈ breakpoints.insertIdx (position addrCmp breakpoints a) a ↔ b = a ∨ b ∈ breakpoints :=
  List.mem_insertIdx (position_le addrCmp breakpoints a)

/-- A new address in the window of the others is sorted in. -/
theorem Sound.insert (h : Sound breakpoints) (hnew : a ∉ breakpoints)
    (hwindow : ∃ base, InWindow base a ∧ ∀ b ∈ breakpoints, InWindow base b) :
    Sound (breakpoints.insertIdx (position addrCmp breakpoints a) a) := by
  obtain ⟨base, ha, hothers⟩ := hwindow
  refine ⟨⟨base, ?_⟩, ?_, ?_⟩
  · intro b hb
    rcases mem_insertIdx_position.mp hb with rfl | hb
    · exact ha
    · exact hothers b hb
  · apply ascending_insertIdx _ h.ascending
    apply @totalPreorder_addrCmp base
    intro b hb
    rcases List.mem_append.mp hb with hb | hb
    · exact hothers b hb
    · rw [List.mem_singleton.mp hb]
      exact ha
  · have hperm := List.perm_insertIdx a breakpoints (position_le addrCmp breakpoints a)
    exact hperm.nodup_iff.mpr (List.nodup_cons.mpr ⟨hnew, h.distinct⟩)

end Table

/-! ## Runs -/

/--
A sequence of `add_breakpoint` calls from the empty table, with the address and
the return code of each.  `Allowed` restricts a call by the table before it.
-/
inductive Run (Allowed : List Word → Word → Prop) : List Word → List (Word × Int) → Prop
  | start : Run Allowed [] []
  | add {breakpoints : List Word} {calls : List (Word × Int)} (guestAddr : Word)
      (run : Run Allowed breakpoints calls) (allowed : Allowed breakpoints guestAddr) :
      Run Allowed (addBreakpoint breakpoints guestAddr).2
        ((guestAddr, (addBreakpoint breakpoints guestAddr).1) :: calls)

/-- The table is exactly the set of the addresses that were added. -/
structure ExactSet (breakpoints : List Word) (calls : List (Word × Int)) : Prop where
  exact : ∀ a, isAddressBreakpoint breakpoints a = true ↔ (a, 0) ∈ calls
  misaligned : ∀ call ∈ calls, call.2 = -2 ↔ ¬4 ∣ call.1.toNat
  distinct : breakpoints.Nodup
  /-- Only a table of 256 distinct breakpoints turns an address away. -/
  full : ∀ a, (addBreakpoint breakpoints a).1 = -1 → breakpoints.length = MAX_BREAKPOINTS

/-- With a new breakpoint, the table stays in one half of the address space. -/
def OneHalf (breakpoints : List Word) (guestAddr : Word) : Prop :=
  4 ∣ guestAddr.toNat →
    ∃ base, InWindow base guestAddr ∧ ∀ a ∈ breakpoints, InWindow base a

theorem and_three_eq_zero_iff (a : Word) : a &&& 0x3 = 0 ↔ 4 ∣ a.toNat := by
  have hmask : (a &&& 0x3).toNat = a.toNat % 4 := by
    rw [BitVec.toNat_and]
    exact Nat.and_two_pow_sub_one_eq_mod a.toNat 2
  rw [← BitVec.toNat_inj, hmask]
  change a.toNat % 4 = 0 ↔ _
  omega

/-- What every call of a run keeps. -/
structure Holds (breakpoints : List Word) (calls : List (Word × Int)) : Prop where
  sound : Sound breakpoints
  bounded : breakpoints.length ≤ MAX_BREAKPOINTS
  added : ∀ a, a ∈ breakpoints ↔ (a, 0) ∈ calls
  misaligned : ∀ call ∈ calls, call.2 = -2 ↔ ¬4 ∣ call.1.toNat

section Runs

variable {breakpoints : List Word} {calls : List (Word × Int)}

theorem Holds.exactSet (h : Holds breakpoints calls) : ExactSet breakpoints calls where
  exact a := (h.sound.isAddressBreakpoint_iff a).trans (h.added a)
  misaligned := h.misaligned
  distinct := h.sound.distinct
  full a hrefused := by
    rcases addBreakpoint_cases breakpoints a with
      ⟨-, heq⟩ | ⟨-, hfull, heq⟩ | ⟨-, -, heq⟩ | ⟨-, -, -, heq⟩
    · rw [heq] at hrefused
      exact absurd hrefused (show (-2 : Int) ≠ -1 by decide)
    · exact Nat.le_antisymm h.bounded hfull
    · rw [heq] at hrefused
      exact absurd hrefused (show (0 : Int) ≠ -1 by decide)
    · rw [heq] at hrefused
      exact absurd hrefused (show (0 : Int) ≠ -1 by decide)

theorem Holds.add (h : Holds breakpoints calls) {a : Word} (hhalf : OneHalf breakpoints a) :
    Holds (addBreakpoint breakpoints a).2 ((a, (addBreakpoint breakpoints a).1) :: calls) := by
  have hcode : ∀ {code : Int}, (code = -2 ↔ ¬4 ∣ a.toNat) →
      ∀ call ∈ (a, code) :: calls, call.2 = -2 ↔ ¬4 ∣ call.1.toNat := by
    intro code hthis call hcall
    rcases List.mem_cons.mp hcall with rfl | hcall
    · exact hthis
    · exact h.misaligned call hcall
  have hother : ∀ {code : Int}, code ≠ 0 → ∀ b, b ∈ breakpoints ↔ (b, 0) ∈ (a, code) :: calls := by
    intro code hne b
    rw [h.added b, List.mem_cons]
    constructor
    · exact .inr
    · rintro (heq | hmem)
      · exact absurd (congrArg Prod.snd heq).symm hne
      · exact hmem
  rcases addBreakpoint_cases breakpoints a with
    ⟨hmis, heq⟩ | ⟨halign, -, heq⟩ | ⟨halign, hset, heq⟩ | ⟨halign, hroom, hnew, heq⟩
  · rw [heq]
    rw [Ne, and_three_eq_zero_iff] at hmis
    exact ⟨h.sound, h.bounded, hother (show (-2 : Int) ≠ 0 by decide), hcode (by simp [hmis])⟩
  · rw [heq]
    rw [and_three_eq_zero_iff] at halign
    exact ⟨h.sound, h.bounded, hother (show (-1 : Int) ≠ 0 by decide), hcode (by simp [halign])⟩
  · rw [heq]
    rw [and_three_eq_zero_iff] at halign
    refine ⟨h.sound, h.bounded, ?_, hcode (by simp [halign])⟩
    intro b
    rw [List.mem_cons, ← h.added b]
    constructor
    · exact .inr
    · rintro (hthis | hmem)
      · rw [(Prod.mk.inj hthis).1]
        exact (h.sound.isAddressBreakpoint_iff a).mp hset
      · exact hmem
  · rw [heq]
    rw [and_three_eq_zero_iff] at halign
    have hfresh : a ∉ breakpoints := by
      rw [← h.sound.isAddressBreakpoint_iff a, hnew]
      decide
    refine ⟨h.sound.insert hfresh (hhalf halign), ?_, ?_, hcode (by simp [halign])⟩
    · rw [List.length_insertIdx_of_le_length (position_le addrCmp breakpoints a)]
      exact hroom
    · intro b
      rw [mem_insertIdx_position, List.mem_cons, h.added b]
      simp

theorem Run.holds (run : Run OneHalf breakpoints calls) : Holds breakpoints calls := by
  induction run with
  | start => exact ⟨sound_nil, by decide, by simp, by simp⟩
  | add guestAddr _ allowed ih => exact ih.add allowed

end Runs

/--
As long as the breakpoints lie in one half of the address space, the table is
exactly the set of the added addresses after every sequence of calls.
-/
theorem breakpoint_set_exact {breakpoints : List Word} {calls : List (Word × Int)}
    (run : Run OneHalf breakpoints calls) : ExactSet breakpoints calls :=
  run.holds.exactSet

/-- A breakpoint in the kernel, one in the rom in front of it, a misaligned one, and the rom's again. -/
theorem breakpoint_set_exact_rom_kernel :
    ∃ calls, Run OneHalf [0x4000, 0x40001000] calls ∧
      calls = [(0x4000, 0), (0x4002, -2), (0x4000, 0), (0x40001000, 0)] ∧
      ExactSet [0x4000, 0x40001000] calls := by
  have hhalf : ∀ breakpoints ⊆ [0x4000, 0x40001000],
      ∀ a ∈ ([0x4000, 0x4002, 0x40001000] : List Word), OneHalf breakpoints a := by
    intro breakpoints hsub a ha _
    have hwindow : ∀ a ∈ ([0x4000, 0x4002, 0x40001000] : List Word), InWindow 0 a := by
      simp [InWindow]
    refine ⟨0, hwindow a ha, fun b hb => hwindow b ?_⟩
    rcases List.mem_pair.mp (hsub hb) with rfl | rfl <;> decide
  have hkernel : addBreakpoint [] 0x40001000 = (0, [0x40001000]) := by decide +kernel
  have hrom : addBreakpoint [0x40001000] 0x4000 = (0, [0x4000, 0x40001000]) := by decide +kernel
  have hodd : addBreakpoint [0x4000, 0x40001000] 0x4002 = (-2, [0x4000, 0x40001000]) := by
    decide +kernel
  have hagain : addBreakpoint [0x4000, 0x40001000] 0x4000 = (0, [0x4000, 0x40001000]) := by
    decide +kernel
  have hrun := Run.add 0x40001000 .start (hhalf [] (by decide) _ (by decide))
  rw [hkernel] at hrun
  have hrun := Run.add 0x4000 hrun (hhalf _ (by decide) _ (by decide))
  rw [hrom] at hrun
  have hrun := Run.add 0x4002 hrun (hhalf _ (by decide) _ (by decide))
  rw [hodd] at hrun
  have hrun := Run.add 0x4000 hrun (hhalf _ (by decide) _ (by decide))
  rw [hagain] at hrun
  exact ⟨_, hrun, rfl, breakpoint_set_exact hrun⟩

/-! ## Breakpoints far apart -/

/-- The table after a list of calls. -/
def addAll (addresses : List Word) : List Word :=
  addresses.foldl (fun breakpoints a => (addBreakpoint breakpoints a).2) []

/-- Every return code is zero. -/
def succeedAll : List Word → List Word → Bool
  | _, [] => true
  | breakpoints, a :: rest =>
      (addBreakpoint breakpoints a).1 == 0 && succeedAll (addBreakpoint breakpoints a).2 rest

theorem run_foldl {addresses breakpoints : List Word} {calls : List (Word × Int)}
    (run : Run (fun _ _ => True) breakpoints calls)
    (hok : succeedAll breakpoints addresses = true) :
    ∃ calls', Run (fun _ _ => True)
        (addresses.foldl (fun breakpoints a => (addBreakpoint breakpoints a).2) breakpoints) calls' ∧
      (∀ call ∈ calls, call ∈ calls') ∧ ∀ a ∈ addresses, (a, 0) ∈ calls' := by
  induction addresses generalizing breakpoints calls with
  | nil => exact ⟨calls, run, fun _ h => h, fun _ h => absurd h List.not_mem_nil⟩
  | cons a rest ih =>
      rw [succeedAll, Bool.and_eq_true, beq_iff_eq] at hok
      obtain ⟨calls', hrun, hkeep, hrest⟩ := ih (Run.add a run True.intro) hok.2
      refine ⟨calls', hrun, fun call hcall => hkeep call (List.mem_cons_of_mem _ hcall), ?_⟩
      intro b hb
      rcases List.mem_cons.mp hb with rfl | hb
      · rw [hok.1] at hkeep
        exact hkeep _ List.mem_cons_self
      · exact hrest b hb

/-- A program, its stack and a library, in the order their breakpoints were set. -/
def spreadBreakpoints : List Word :=
  [0x00010000, 0x00010004, 0x7ff00000, 0x95600000, 0x95600004, 0x95600008]

/-- A breakpoint that was added is missed. -/
theorem spread_breakpoint_missed :
    ¬∀ (breakpoints : List Word) (calls : List (Word × Int)),
      Run (fun _ _ => True) breakpoints calls → ExactSet breakpoints calls := by
  intro hclaim
  have hok : succeedAll [] spreadBreakpoints = true := by decide +kernel
  have hmissed : isAddressBreakpoint (addAll spreadBreakpoints) 0x95600004 = false := by
    decide +kernel
  obtain ⟨calls, hrun, -, hadded⟩ := run_foldl .start hok
  have hset := ((hclaim _ _ hrun).exact 0x95600004).mpr (hadded _ (by decide))
  exact absurd hset (by rw [← Bool.not_eq_true] at hmissed; exact hmissed)

end Zelda.Proofs.BreakpointSet
