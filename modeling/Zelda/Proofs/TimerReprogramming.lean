import Zelda.Proofs.SbiCalls
import Zelda.Vmm.Init
/-!
# Reprogramming the timer

`sbi_set_timer` replaces a 64-bit deadline by three 32-bit stores.  Whatever
the clock does between them, no value in between is a deadline that has
passed.
-/

namespace Zelda.Proofs.TimerReprogramming

open Zelda.Vmm
open Zelda.Firmware
open Zelda.Lib.Effect
open Zelda.Proofs.Callees
open Zelda.Proofs.SbiCalls

/-! ## The stores and the clock -/

/-- The register the firmware computes for a hart. -/
def mtimecmpAddress (hartid : Word) : Word :=
  CLINT_BASE + CLINT_MTIMECMP_OFFSET + 8 * hartid

/-- The three stores of `sbi_set_timer`, in order. -/
def timerStore (mtimecmp : Word) (next : DWord) : Nat → VmM Unit
  | 0 => store32 (mtimecmp + 4) 0xffffffff
  | 1 => store32 mtimecmp (next.setWidth 32)
  | _ => store32 (mtimecmp + 4) ((next >>> 32).setWidth 32)

/-- The comparator of this hart in the register the firmware uses. -/
def ownMtimecmp (s : Vm) : Word :=
  mtimecmpAddress (BitVec.ofNat 32 s.hart.hartId)

/-- The end of time for a comparator whose high half is parked. -/
def PARKED : DWord := 0xffffffff00000000

/-- The states after the first `n` stores, with the clock running and being looked at between. -/
inductive Reprogramming (next : DWord) (s : Vm) : Nat → Vm → Prop
  | start (below : s.clint.mtime < PARKED) : Reprogramming next s 0 s
  | advance {n : Nat} {t : Vm} (ticks : DWord) (run : Reprogramming next s n t)
      (below : t.clint.mtime + ticks < PARKED) :
      Reprogramming next s n { t with clint := t.clint.advanceTime ticks }
  | skip {n : Nat} {t : Vm} (run : Reprogramming next s n t)
      (below : t.clint.skipToNextDeadline.2.mtime < PARKED) :
      Reprogramming next s n { t with clint := t.clint.skipToNextDeadline.2 }
  | refresh {n : Nat} {t : Vm} (run : Reprogramming next s n t) :
      Reprogramming next s n (finalState (clintRefreshPending t))
  | store {n : Nat} {t u : Vm} (run : Reprogramming next s n t) (more : n < 3)
      (stores : timerStore (ownMtimecmp t) next n t = .ok () u) : Reprogramming next s (n + 1) u

/-- `mip.MTIP` after a refresh. -/
def refreshedMtip (t : Vm) : Bool :=
  (finalState (clintRefreshPending t)).hart.ipending.getLsbD 7

/-- What holds after the first `n` stores. -/
structure NeverSpurious (next : DWord) (s : Vm) (n : Nat) (t : Vm) : Prop where
  /-- The next store succeeds, and touches nothing but the comparator of this hart. -/
  stores : n < 3 → ∃ cmp, timerStore (ownMtimecmp t) next n t =
    .ok () { t with
      clint := { t.clint with
        mtimecmp := Function.update t.clint.mtimecmp t.hart.hartId cmp } }
  hart : t.hart.hartId = s.hart.hartId
  quiet : n = 1 ∨ n = 2 → refreshedMtip t = false
  deadline : n = 3 → t.clint.mtimecmp t.hart.hartId = next
  fires : n = 3 → (refreshedMtip t = true ↔ next ≤ t.clint.mtime)

/-! ## Parked comparators -/

/-- The high half parked. -/
def parkedHigh (cmp : DWord) : DWord :=
  Clint.setHigh cmp ((0xffffffff : Word).setWidth 64)

/-- The high half parked and the low half new. -/
def parkedLow (cmp next : DWord) : DWord :=
  Clint.setLow (parkedHigh cmp) ((next.setWidth 32).setWidth 64)

theorem parkedHigh_eq (cmp : DWord) : parkedHigh cmp = (cmp &&& 0xffffffff#64) ||| PARKED := rfl

theorem parkedLow_eq (cmp next : DWord) :
    parkedLow cmp next = PARKED ||| ((next.setWidth 32).setWidth 64 &&& 0xffffffff#64) := by
  have hlow : ∀ i, i < 64 → (0xffffffff#64).getLsbD i = decide (i < 32) := by decide
  have hhigh : ∀ i, i < 64 → PARKED.getLsbD i = !decide (i < 32) := by decide
  have hcleared : parkedHigh cmp &&& ~~~0xffffffff#64 = PARKED := by
    apply BitVec.eq_of_getLsbD_eq
    intro i hi
    rw [parkedHigh_eq]
    simp only [BitVec.getLsbD_or, BitVec.getLsbD_and, BitVec.getLsbD_not, hlow i hi, hhigh i hi, hi]
    cases decide (i < 32) <;> simp
  rw [parkedLow, Clint.setLow, hcleared]

theorem parked_le_parkedHigh (cmp : DWord) : PARKED ≤ parkedHigh cmp := by
  rw [parkedHigh_eq, BitVec.le_def, BitVec.toNat_or]
  exact Nat.right_le_or

theorem parked_le_parkedLow (cmp next : DWord) : PARKED ≤ parkedLow cmp next := by
  rw [parkedLow_eq, BitVec.le_def, BitVec.toNat_or]
  exact Nat.left_le_or

/-- What the comparator of this hart is after the first `n` stores. -/
def Phase (next : DWord) : Nat → DWord → Prop
  | 0, _ => True
  | 1, cmp => ∃ old, cmp = parkedHigh old
  | 2, cmp => ∃ old, cmp = parkedLow old next
  | _, cmp => cmp = next

/-- What the `n`th store makes of the comparator. -/
def storedMtimecmp (next cmp : DWord) : Nat → DWord
  | 0 => parkedHigh cmp
  | 1 => Clint.setLow cmp ((next.setWidth 32).setWidth 64)
  | _ => Clint.setHigh cmp (((next >>> 32).setWidth 32).setWidth 64)

theorem phase_stored {next cmp : DWord} {n : Nat} (more : n < 3) (h : Phase next n cmp) :
    Phase next (n + 1) (storedMtimecmp next cmp n) := by
  match n, more with
  | 0, _ => exact ⟨cmp, rfl⟩
  | 1, _ =>
      obtain ⟨old, rfl⟩ := h
      exact ⟨old, rfl⟩
  | 2, _ =>
      obtain ⟨old, rfl⟩ := h
      exact mtimecmp_halves old next

theorem parked_le_of_phase {next cmp : DWord} {n : Nat} (hn : n = 1 ∨ n = 2)
    (h : Phase next n cmp) : PARKED ≤ cmp := by
  rcases hn with rfl | rfl
  · obtain ⟨old, rfl⟩ := h
    exact parked_le_parkedHigh old
  · obtain ⟨old, rfl⟩ := h
    exact parked_le_parkedLow old next

/-! ## The run -/

theorem refreshedMtip_eq (t : Vm) :
    refreshedMtip t = decide (t.clint.mtimecmp t.hart.hartId ≤ t.clint.mtime) := by
  change (assignBit (assignBit t.hart.ipending 7 _) 3 _).getLsbD 7 = _
  rw [getLsbD_assignBit _ _ (by decide), if_neg (by decide), getLsbD_assignBit _ _ (by decide),
    if_pos rfl]

/-- What every step of a run keeps. -/
structure Holds (next : DWord) (s : Vm) (n : Nat) (t : Vm) : Prop where
  platform : Platform t
  level : t.hart.privilegeLevel = PRIVILEGE_LEVEL_MACHINE
  hart : t.hart.hartId = s.hart.hartId
  below : t.clint.mtime < PARKED
  phase : Phase next n (t.clint.mtimecmp t.hart.hartId)

section Run

variable {next : DWord} {s t : Vm} {n : Nat}

theorem timerStore_apply (hp : Platform t) (hm : t.hart.privilegeLevel = PRIVILEGE_LEVEL_MACHINE)
    (next : DWord) (n : Nat) :
    timerStore (ownMtimecmp t) next n t =
      .ok () (withMtimecmp t (storedMtimecmp next (t.clint.mtimecmp t.hart.hartId) n)) := by
  match n with
  | 0 => exact store32_mtimecmp_high hp hm _
  | 1 => exact store32_mtimecmp_low hp hm _
  | _ + 2 => exact store32_mtimecmp_high hp hm _

theorem Holds.store (h : Holds next s n t) (more : n < 3) :
    Holds next s (n + 1)
      (withMtimecmp t (storedMtimecmp next (t.clint.mtimecmp t.hart.hartId) n)) where
  platform := h.platform.withMtimecmp _
  level := h.level
  hart := h.hart
  below := h.below
  phase := by
    rw [withMtimecmp_read]
    exact phase_stored more h.phase

theorem Reprogramming.holds (hp : Platform s)
    (hm : s.hart.privilegeLevel = PRIVILEGE_LEVEL_MACHINE) (run : Reprogramming next s n t) :
    Holds next s n t := by
  induction run with
  | start below => exact ⟨hp, hm, rfl, below, True.intro⟩
  | advance ticks _ below ih =>
      exact ⟨⟨ih.platform.pmrOps, ih.platform.clintBase, ih.platform.hartId⟩, ih.level, ih.hart,
        below, ih.phase⟩
  | @skip n t _ below ih =>
      have hskip : t.clint.skipToNextDeadline.2 =
          { t.clint with mtime := t.clint.skipToNextDeadline.2.mtime } := by
        unfold Clint.skipToNextDeadline
        simp only
        split_ifs <;> rfl
      have hplatform : Platform { t with clint := t.clint.skipToNextDeadline.2 } := by
        rw [hskip]
        exact ⟨ih.platform.pmrOps, ih.platform.clintBase, ih.platform.hartId⟩
      refine ⟨hplatform, ih.level, ih.hart, below, ?_⟩
      change Phase next n (t.clint.skipToNextDeadline.2.mtimecmp t.hart.hartId)
      rw [hskip]
      exact ih.phase
  | refresh _ ih =>
      exact ⟨⟨ih.platform.pmrOps, ih.platform.clintBase, ih.platform.hartId⟩, ih.level, ih.hart,
        ih.below, ih.phase⟩
  | store _ more stores ih =>
      rw [timerStore_apply ih.platform ih.level] at stores
      obtain rfl : _ = _ := (EStateM.Result.ok.inj stores).2
      exact ih.store more

theorem Holds.neverSpurious (h : Holds next s n t) : NeverSpurious next s n t where
  stores _ := ⟨_, timerStore_apply h.platform h.level next n⟩
  hart := h.hart
  quiet hn := by
    have hparked := parked_le_of_phase hn h.phase
    have hbelow := h.below
    rw [BitVec.le_def] at hparked
    rw [BitVec.lt_def] at hbelow
    rw [refreshedMtip_eq, decide_eq_false_iff_not, BitVec.le_def]
    omega
  deadline hn := by
    subst hn
    exact h.phase
  fires hn := by
    subst hn
    have hcmp : t.clint.mtimecmp t.hart.hartId = next := h.phase
    rw [refreshedMtip_eq, hcmp, decide_eq_true_iff]

end Run

/--
Whatever the clock does between the stores of `sbi_set_timer`, short of the
end of time, the timer is quiet until the last of them and then fires exactly
when the new deadline has passed.
-/
theorem set_timer_never_spurious {s : Vm} (hp : Platform s)
    (hm : s.hart.privilegeLevel = PRIVILEGE_LEVEL_MACHINE) (next : DWord) {n : Nat} {t : Vm}
    (run : Reprogramming next s n t) : NeverSpurious next s n t :=
  (run.holds hp hm).neverSpurious

/-- The reset machine, whose timer is set to 3 while the clock goes from 0 to 5. -/
theorem set_timer_never_spurious_reset :
    ∃ t, Reprogramming 3 (virtualMachineInit (fun _ => 0) fun _ => 0) 3 t ∧
      t.clint.mtimecmp t.hart.hartId = 3 ∧ refreshedMtip t = true := by
  have hp : Platform (virtualMachineInit (fun _ => 0) fun _ => 0) := ⟨rfl, rfl, by decide⟩
  have hm : (virtualMachineInit (fun _ => 0) fun _ => 0).hart.privilegeLevel =
      PRIVILEGE_LEVEL_MACHINE := rfl
  have hstart : Reprogramming 3 (virtualMachineInit (fun _ => 0) fun _ => 0) 0 _ :=
    .start (by decide)
  have hparked := hstart.store (by decide) (timerStore_apply hp hm 3 0)
  have hticked := hparked.advance 5 (by decide +kernel)
  have hticked' := hticked.holds hp hm
  have hlow := hticked.store (by decide) (timerStore_apply hticked'.platform hticked'.level 3 1)
  have hlow' := hlow.holds hp hm
  have hdone := hlow.store (by decide) (timerStore_apply hlow'.platform hlow'.level 3 2)
  have hspec := set_timer_never_spurious hp hm 3 hdone
  exact ⟨_, hdone, hspec.deadline rfl, (hspec.fires rfl).mpr (by decide +kernel)⟩

end Zelda.Proofs.TimerReprogramming
