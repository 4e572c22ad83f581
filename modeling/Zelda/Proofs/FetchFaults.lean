import Zelda.Proofs.Prefetch
import Zelda.Vmm.Init
/-!
# Instruction page faults

A block never raises an instruction page fault; only the prefetch before it
does.  The prefetch runs ahead of execution with the hart's pc still at the
start of the unit, so a fault it meets past its first instruction is delivered
for an instruction that has not been reached.
-/

namespace Zelda.Proofs.FetchFaults

open Zelda.Vmm
open Zelda.Lib.Effect
open Zelda.Lib.X86
open Zelda.Proofs.Callees
open Zelda.Proofs.Frames
open Zelda.Proofs.Prefetch

/-! ## Traps inside blocks -/

/-- An abnormal outcome that, if it is a trap, is no instruction page fault. -/
def OtherTrap (e : Abort) (t : Vm) : Prop :=
  e = .trap → trapCause t.hart ≠ BitVec.ofNat 32 EXCEPTION_INSTRUCTION_PAGE_FAULT

/-- A trap to a level that has trap registers, for any cause but the fetch fault. -/
def OtherCause (_ : Hart) (level : BitVec 2) (cause : Word) : Prop :=
  (level = PRIVILEGE_LEVEL_SUPERVISOR ∨ level = PRIVILEGE_LEVEL_MACHINE) ∧
    cause ≠ BitVec.ofNat 32 EXCEPTION_INSTRUCTION_PAGE_FAULT

theorem leaves_otherTrap : Leaves (fun _ => True) OtherCause OtherTrap where
  stop _ _ hne _ he := absurd he hne
  trap s level cause tval hother _ _ := by
    rw [(takeTrap_handler s.hart cause tval hother.1).1]
    exact hother.2

theorem blockCauses_otherTrap : BlockCauses (fun _ => True) OtherCause := by
  intro cause hlt hne h _
  refine ⟨exceptionTarget_cases h cause, fun heq => ?_⟩
  have hnat := congrArg BitVec.toNat heq
  simp only [BitVec.toNat_ofNat, EXCEPTION_INSTRUCTION_PAGE_FAULT] at hnat hne
  omega

/-- Running translated code raises no instruction page fault. -/
theorem runCache_otherTrap (hc : HostCode) (steps offset : Nat) (c : Cpu) (s : Vm) :
    Wp (runCache hc steps offset c) (fun _ _ => True) OtherTrap s := by
  have hI : Closed fun _ => True := ⟨fun _ _ _ h => h, fun _ _ h => h, fun _ _ _ _ _ h => h⟩
  have hP : PrivilegedClosed fun _ => True :=
    ⟨fun _ _ _ h => h, fun _ _ h => h, fun _ _ _ _ _ h => h, fun _ _ _ h => h, fun _ _ h => h,
      fun _ h => h, fun _ h => h⟩
  exact ends_runCache hI hP leaves_otherTrap blockCauses_otherTrap hc steps offset c s trivial

/-! ## Precise faults -/

/-- `walk_page_table` returns an error for the address. -/
def WalkFails (vm : Vm) (va : Word) : Prop :=
  ∃ rc, rc ≠ 0 ∧ (walkPageTable vm va vm.hart.itlb).map Prod.fst = some rc

/--
Resuming at `pc` delivers an instruction page fault only if the walk of `pc`,
the instruction the hart has reached, fails; then `pc` is also the saved pc
and the trap value.
-/
def FetchFaultsPrecise (hc : HostCode) (vm : Vm) : Prop :=
  ∀ t, vmresume hc vm = .error .trap t →
    trapCause t.hart = BitVec.ofNat 32 EXCEPTION_INSTRUCTION_PAGE_FAULT →
    WalkFails vm vm.hart.pc ∧ trapEpc t.hart = vm.hart.pc ∧ trapTval t.hart = vm.hart.pc

/--
Behind the first instruction, the straight-line code at `pc` runs within the
translation unit onto an address that is neither cached nor translated.
-/
def RunsIntoFault (hc : HostCode) (vm : Vm) : Prop :=
  ∃ n blob s, 0 < n ∧ Rounds hc (initialBlob vm.hart.pc) (started vm) n blob s ∧
    Continues blob s ∧ FetchFault s blob.nextInstructionToFetch

theorem walkFails_of_error {vm : Vm} {va : Word} {rc : Int}
    (h : PageWalk.walkLeaf vm va = some (.error rc)) : WalkFails vm va := by
  refine ⟨rc, (PageWalk.walkLeaf_error h).ne, ?_⟩
  rw [PageWalk.walkPageTable_eq, h]
  rfl

theorem vmresume_of_prefetch_error {hc : HostCode} {vm t : Vm} {e : Abort}
    (h : prefetchInstructions hc vm = .error e t) : vmresume hc vm = .error e t := by
  unfold vmresume
  rw [bind_apply_error h]

/-- An instruction page fault of a resume comes from its prefetch. -/
theorem prefetch_trap_of_fault {hc : HostCode} {vm t : Vm} (h : vmresume hc vm = .error .trap t)
    (hcause : trapCause t.hart = BitVec.ofNat 32 EXCEPTION_INSTRUCTION_PAGE_FAULT) :
    prefetchInstructions hc vm = .error .trap t := by
  cases hprefetch : prefetchInstructions hc vm with
  | error e u =>
      rw [vmresume_of_prefetch_error hprefetch] at h
      exact h
  | ok _ u =>
      unfold vmresume at h
      rw [bind_apply_ok hprefetch, bind_apply_ok (get_apply u)] at h
      cases hsearch : searchTranslationItem u.hart.pcMappings u.hart.pc with
      | none =>
          simp only [hsearch] at h
          cases h
      | some item =>
          simp only [hsearch] at h
          have hother := (wp_of_error h).mp
            (runCache_otherTrap hc TRANSLATION_CACHE_SIZE item.tcOffset (entryCpu hc) u)
          exact absurd hcause (hother rfl)

theorem walkLeaf_started (vm : Vm) (va : Word) :
    PageWalk.walkLeaf (started vm) va = PageWalk.walkLeaf vm va := rfl

/-- The addresses of a unit past its first differ from the first. -/
theorem add_four_mul_ne (pc : Word) {n : Nat} (hpos : 0 < n) (hlt : n < prefetchRounds) :
    pc + 4 * BitVec.ofNat 32 n ≠ pc := by
  intro h
  have hzero : 4 * BitVec.ofNat 32 n = 0#32 := by
    have := congrArg (· - pc) h
    simpa using this
  have hnat := congrArg BitVec.toNat hzero
  have hbound : n < 2 ^ 29 := hlt.trans (by decide)
  have hfour : (4 : Word).toNat = 4 := rfl
  simp only [BitVec.toNat_mul, BitVec.toNat_ofNat, hfour] at hnat
  omega

/--
The instruction page faults of a resume are precise exactly when no
instruction behind the first of its unit fails to be fetched.
-/
theorem fetchFaultsPrecise_iff (hc : HostCode) (vm : Vm) :
    FetchFaultsPrecise hc vm ↔ ¬RunsIntoFault hc vm := by
  constructor
  · rintro hprecise ⟨n, blob, s, hpos, hrounds, hcontinues, hfault⟩
    have htrap := vmresume_of_prefetch_error (prefetchInstructions_of_fault hrounds hcontinues hfault)
    obtain ⟨hcause, -, htval⟩ := excepted_handler s EXCEPTION_INSTRUCTION_PAGE_FAULT
      blob.nextInstructionToFetch
    obtain ⟨-, -, hpc⟩ := hprecise _ htrap hcause
    rw [fetchFaulted, htval, (progress_of_rounds hrounds hcontinues.goesOn).next] at hpc
    exact add_four_mul_ne _ hpos (rounds_lt hrounds) hpc
  · intro hahead t htrap hcause
    obtain ⟨n, blob, s, hrounds, hcontinues, hfault, rfl⟩ :=
      rounds_of_prefetchInstructions_trap (prefetch_trap_of_fault htrap hcause)
    cases hrounds with
    | succ rounds continues round =>
        exact absurd ⟨_, blob, s, Nat.succ_pos _, .succ rounds continues round, hcontinues, hfault⟩
          hahead
    | zero =>
        obtain ⟨-, -, rc, hleaf⟩ := hfault
        obtain ⟨-, hepc, htval⟩ := excepted_handler (started vm) EXCEPTION_INSTRUCTION_PAGE_FAULT
          (initialBlob vm.hart.pc).nextInstructionToFetch
        exact ⟨walkFails_of_error (walkLeaf_started vm _ ▸ hleaf), hepc, htval⟩

/-! ## Code at the end of a page -/

/-- Tables that map the page at `0x1000`, whose last word is a `nop`. -/
def crossingRam : Nat → Byte
  | 0x0 => 0x01
  | 0x1 => 0x04
  | 0x3 => 0x20
  | 0x1004 => 0x0f
  | 0x1005 => 0x08
  | 0x1007 => 0x20
  | 0x2ffc => 0x13
  | _ => 0

/-- User mode at that word, with instruction page faults delegated to the supervisor. -/
def crossingVm : Vm :=
  let vm := virtualMachineInit (fun _ => 0) crossingRam
  let hart := vm.hart.setCsrBlob CSR_ADDRESS_SATP 0x80080000
  let hart := hart.setCsrBlob CSR_ADDRESS_MEDELEG 0x1000
  { vm with hart := { hart with privilegeLevel := PRIVILEGE_LEVEL_USER, pc := 0x1ffc } }

/-- What the handler of a trap finds. -/
def handlerView {α : Type} : EStateM.Result Abort Vm α → Option (Word × Word × Word)
  | .error .trap t => some (trapCause t.hart, trapEpc t.hart, trapTval t.hart)
  | _ => none

/-- The `nop` is not executed: the fault of the page behind it is delivered at once. -/
theorem fetch_fault_ahead_of_nop :
    ¬∀ (hc : HostCode) (vm : Vm), vm.hart.pagingOn = true → FetchFaultsPrecise hc vm := by
  intro hclaim
  have hprecise := hclaim evenHostCode crossingVm (by decide)
  have hview : handlerView (vmresume evenHostCode crossingVm) =
      some (BitVec.ofNat 32 EXCEPTION_INSTRUCTION_PAGE_FAULT, 0x1ffc, 0x2000) := by
    decide +kernel
  cases hresume : vmresume evenHostCode crossingVm with
  | ok a t =>
      rw [hresume] at hview
      cases hview
  | error e t =>
      rw [hresume] at hview
      cases e with
      | exit | hostFault => cases hview
      | trap =>
          obtain ⟨hcause, -, htval⟩ : trapCause t.hart = _ ∧ trapEpc t.hart = _ ∧
              trapTval t.hart = _ := by simpa [handlerView] using hview
          obtain ⟨-, -, hpc⟩ := hprecise t hresume hcause
          rw [htval] at hpc
          exact absurd hpc (by decide)

end Zelda.Proofs.FetchFaults
