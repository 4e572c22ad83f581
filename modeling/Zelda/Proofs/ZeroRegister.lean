import Zelda.Lib.X86Discipline
import Zelda.Proofs.CsrAccess
import Zelda.Proofs.PreciseTraps
import Zelda.Proofs.Runs
/-!
# The zero register

`x0` is a word of the hart like the others, and every template that may have
written it clears it again.  Between the write and the clearing no callee can
trap, so a trap handler never sees what was written.
-/

namespace Zelda.Proofs.ZeroRegister

open Zelda.Vmm
open Zelda.Lib.Effect
open Zelda.Lib.X86
open Zelda.Proofs.Callees
open Zelda.Proofs.Frames
open Zelda.Proofs.MemoryInstructions
open Zelda.Proofs.PreciseTraps
open Zelda.Proofs.Runs
open Zelda.Proofs.Templates

/-- `x0` reads as zero. -/
def Clean (h : Hart) : Prop :=
  h.registers 0 = 0

/-- Where control leaves vmm code for a trap handler, `x0` is zero. -/
def CleanTrap (e : Abort) (t : Vm) : Prop :=
  e = .trap → Clean t.hart

theorem clean_of_registers {h h' : Hart} (hh : Clean h) (hsame : h'.registers = h.registers) :
    Clean h' := by
  rw [Clean, hsame]
  exact hh

/-! ## What leaves the registers alone -/

theorem flushOnChange_registers (h : Hart) (tag : Word) :
    (h.flushTranslationCacheOnAddressSpaceChange tag).registers = h.registers := by
  rw [flushOnChange_frame]

theorem fillClosed_clean : FillClosed Clean := by
  intro vm side va entry _ hh
  cases side with
  | itlb => exact hh
  | dtlb => exact hh

theorem eventClosed_clean : EventClosed Clean where
  refresh _ _ _ hh := hh
  returnFromMmode h _ _ hh :=
    clean_of_registers hh (flushOnChange_registers h.adjustMstatusUponMret.adjustPcUponMret _)
  returnFromSmode h _ hh :=
    clean_of_registers hh (flushOnChange_registers h.adjustMstatusUponSret.adjustPcUponSret _)
  flush _ hh := hh
  sfenceVma _ hh := hh

theorem prefetchClosed_clean : PrefetchClosed Clean where
  commit hcommit hh := by
    obtain ⟨added, item, hadd, -, rfl⟩ := hcommit
    obtain ⟨-, -, rfl⟩ := Prefetch.addTranslationItem_eq hadd
    rw [Prefetch.writeParams_frame]
    exact hh
  count _ _ hh := hh
  jumper _ _ hh := hh
  flush _ hh := hh

theorem leaves_clean : Leaves Clean (fun _ _ _ => True) CleanTrap where
  stop _ _ hne _ htrap := absurd htrap hne
  trap s level cause tval _ hs _ :=
    clean_of_registers hs (takeTrap_registers s.hart level cause tval)

theorem blockCauses_clean : BlockCauses Clean fun _ _ _ => True :=
  fun _ _ _ _ _ => True.intro

/-! ## Callees that write registers -/

theorem clean_excepted {vm : Vm} (h : Clean vm.hart) (cause : Nat) (tval : Word) :
    Clean (excepted vm cause tval).hart :=
  clean_of_registers h (excepted_registers vm cause tval)

theorem clean_of_read_trap {vm t : Vm} {va : Word} (h : Clean vm.hart)
    (htrap : mmuRead32Aligned va vm = .error .trap t) : Clean t.hart := by
  rcases mmuRead32Aligned_trap_iff.mp htrap with ⟨-, rfl⟩ | ⟨-, -, rfl⟩
  · exact clean_excepted h _ _
  · exact clean_excepted h _ _

theorem clean_of_write_trap {vm t : Vm} {va value : Word} (h : Clean vm.hart)
    (htrap : mmuWrite32Aligned va value vm = .error .trap t) : Clean t.hart := by
  rcases mmuWrite32Aligned_trap_iff.mp htrap with ⟨-, rfl⟩ | ⟨-, -, rfl⟩
  · exact clean_excepted h _ _
  · exact clean_excepted h _ _

/-- The registers a conditional store traps with: `rd` is zero already. -/
theorem clean_setReg_zero {h : Hart} (hh : Clean h) (rd : RegIndex) : Clean (h.setReg rd 0) := by
  show Function.update h.registers rd 0 0 = 0
  by_cases hrd : (0 : RegIndex) = rd
  · rw [← hrd, Function.update_self]
  · rw [Function.update_of_ne hrd]
    exact hh

theorem clean_of_access_trap {vm t : Vm} {i : MemoryInstr} (h : Clean vm.hart)
    (htrap : i.access vm = .error .trap t) : Clean t.hart := by
  cases i with
  | load l rd rs1 offset =>
      obtain ⟨-, rfl⟩ := MemoryInstr.load_trap_iff.mp htrap
      exact clean_excepted h _ _
  | store st rs1 rs2 offset =>
      obtain ⟨-, rfl⟩ := MemoryInstr.store_trap_iff.mp htrap
      exact clean_excepted h _ _
  | lr rd rs1 rs2 => exact clean_of_read_trap h (MemoryInstr.lr_trap_iff.mp htrap)
  | amo op rd rs1 rs2 => exact clean_of_read_trap h (MemoryInstr.amo_trap_iff.mp htrap)
  | sc rd rs1 rs2 =>
      obtain ⟨-, hwrite⟩ := MemoryInstr.sc_trap_iff.mp htrap
      have hcleared : Clean ({ vm with hart := vm.hart.setReg rd 0 } : Vm).hart :=
        clean_setReg_zero h rd
      exact clean_of_write_trap hcleared hwrite

/-- An atomic operation may leave `x0` dirty, but only when it returns. -/
theorem wp_amoInstructionSlowpath {vm : Vm} (h : Clean vm.hart) (rs1 rs2 rd : RegIndex)
    (funct5 : Word) :
    Wp (amoInstructionSlowpath rs1 rs2 rd funct5) (fun _ _ => True) CleanTrap vm := by
  have hslow : ∀ {m : VmM Unit} {i : MemoryInstr},
      (i.access = m >>= fun _ => pure fun h : Hart => MemoryTemplates.proceeded (h.setReg 0 0)) →
      Wp m (fun _ _ => True) CleanTrap vm := by
    intro m i hi
    unfold Wp
    cases hm : m vm with
    | ok a t => exact True.intro
    | error e t =>
        rintro rfl
        apply clean_of_access_trap h
        rw [hi]
        exact bind_apply_error hm
  unfold amoInstructionSlowpath
  split
  · exact hslow (i := .amo .add rd rs1 rs2) rfl
  · exact hslow (i := .amo .swap rd rs1 rs2) rfl
  · exact hslow (i := .lr rd rs1 rs2) rfl
  · exact hslow (i := .sc rd rs1 rs2) rfl
  · exact hslow (i := .amo .xor rd rs1 rs2) rfl
  · exact hslow (i := .amo .or rd rs1 rs2) rfl
  · exact hslow (i := .amo .and rd rs1 rs2) rfl
  · intro htrap
    cases htrap

/-! ## Templates -/

/-- Whether a callee may return with `x0` written. -/
def writesRegisters : VmmFn → Bool
  | .amoInstructionSlowpath | .riscvGenericCsrCallback => true
  | _ => false

/--
The typestate says whether `x0` may have been written.  `%r15` points to it and
`%r14` to the pc; a store through any other register may go to `x0`.
-/
def zeroDiscipline : Discipline VmmFn Bool where
  kept r := !Reg.isScratch r
  store src addr dirty :=
    if addr = .r15 then src != .imm 0
    else if addr = .r14 then dirty
    else true
  add addr dirty := if addr = .r14 then dirty else true
  call f dirty := if dirty then none else some (writesRegisters f)
  final dirty := !dirty

/-- No template calls the vmm with `x0` dirty, and none ends with it dirty. -/
theorem template_follows (indicator : Indicator) :
    zeroDiscipline.follows 0 false [] (template indicator) = true := by
  cases indicator <;> decide

/-- What a typestate says of the machine. -/
def CleanUnless (dirty : Bool) (vm : Vm) : Prop :=
  dirty = false → Clean vm.hart

theorem wp_callVmmFn {vm : Vm} (h : Clean vm.hart) (hc : HostCode) (f : VmmFn) (c : Cpu) :
    Wp (callVmmFn hc f c) (fun _ t => CleanUnless (writesRegisters f) t) CleanTrap vm := by
  have hindex : ∀ value, Ends (OnHart Clean) CleanTrap (indexArgument value) := fun value =>
    ends_ite (ends_pure _) (ends_hostFault leaves_clean)
  by_cases hwrites : writesRegisters f = true
  · -- both report in their typestate that `x0` may be dirty
    have hdirty : ∀ t : Vm, CleanUnless (writesRegisters f) t := by
      intro t hclean
      rw [hwrites] at hclean
      cases hclean
    unfold callVmmFn
    by_cases hrdi : c.rdi = hc.hartBase
    · rw [if_neg (not_not.mpr hrdi)]
      cases f with
      | amoInstructionSlowpath =>
          simp only [wp_bind]
          refine wp_mono (hindex _ vm h) ?_ fun _ _ he => he
          intro rs1 vm₁ h₁
          refine wp_mono (hindex _ vm₁ h₁) ?_ fun _ _ he => he
          intro rs2 vm₂ h₂
          refine wp_mono (hindex _ vm₂ h₂) ?_ fun _ _ he => he
          intro rd vm₃ h₃
          refine wp_mono (wp_amoInstructionSlowpath h₃ rs1 rs2 rd _) ?_ fun _ _ he => he
          exact fun _ t _ => hdirty t
      | riscvGenericCsrCallback =>
          rw [wp_bind]
          refine wp_mono (CsrAccess.riscvGenericCsrCallback_spec _ vm) ?_ ?_
          · exact fun _ t _ => hdirty t
          · exact fun e t hnot htrap => absurd htrap hnot.1
      | _ => cases hwrites
    · rw [if_pos hrdi]
      intro htrap
      cases htrap
  · have hends : Ends (OnHart Clean) CleanTrap (callVmmFn hc f c) := by
      by_cases hwfi : f = .wfiCallback
      · subst hwfi
        exact ends_callVmmFn_wfi leaves_clean eventClosed_clean.refresh hc c
      · apply ends_callVmmFn_of_plain leaves_clean blockCauses_clean fillClosed_clean
          eventClosed_clean.returnClosed hc _ hwfi
        · rintro rfl
          exact hwrites rfl
        · rintro rfl
          exact hwrites rfl
    exact wp_mono (hends vm h) (fun _ _ ht _ => ht) fun _ _ he => he

section Block

variable {hc : HostCode} {c : Cpu}

theorem clean_setReg_self (h : Hart) : Clean (h.setReg 0 0) := by
  show Function.update h.registers 0 0 0 = 0
  rw [Function.update_self]

theorem zeroDiscipline_sound (hready : Ready hc c) (param : Nat → Word) :
    zeroDiscipline.Sound (hostEnv hc) param c.get CleanUnless CleanTrap where
  callerSaved := by decide
  store src addr dirty c' s t hkept hs hstore := by
    intro hclean
    have hr15 : c'.get .r15 = hc.hartBase := (hkept .r15 rfl).trans hready.r15
    have hr14 : c'.get .r14 = hc.hartBase + 128 := (hkept .r14 rfl).trans hready.r14
    unfold zeroDiscipline at hclean
    simp only at hclean
    split at hclean
    · rename_i haddr
      have hsrc : src = .imm 0 := by simpa using hclean
      subst haddr hsrc
      simp only [hostEnv, hr15, hartSlot_zero] at hstore
      cases hstore
      exact clean_setReg_self s.hart
    · split at hclean
      · rename_i haddr
        subst haddr
        simp only [hostEnv, hr14, hartSlot_pc] at hstore
        cases hstore
        exact hs hclean
      · cases hclean
  add v addr dirty c' s t old hkept hs hload hstore := by
    intro hclean
    have hr14 : c'.get .r14 = hc.hartBase + 128 := (hkept .r14 rfl).trans hready.r14
    unfold zeroDiscipline at hclean
    simp only at hclean
    split at hclean
    · rename_i haddr
      subst haddr
      simp only [hostEnv, hr14, hartSlot_pc] at hstore
      cases hstore
      exact hs hclean
    · cases hclean
  call f dirty dirty' c' s hcall hs := by
    unfold zeroDiscipline at hcall
    simp only at hcall
    split at hcall
    · cases hcall
    · rename_i hdirty
      obtain rfl := Option.some.inj hcall
      exact wp_callVmmFn (hs (Bool.eq_false_iff.mpr hdirty)) hc f c'
  fault _ _ _ htrap := by cases htrap

theorem keeps_self (c : Cpu) : zeroDiscipline.Keeps c.get [] c :=
  ⟨fun _ _ => rfl, fun _ hr => (List.not_mem_nil hr).elim, c.stack, rfl⟩

/-- A block hands on the registers that lead to the hart. -/
theorem ready_of_kept (hready : Ready hc c) {c' : Cpu}
    (hget : ∀ r, zeroDiscipline.kept r = true → c'.get r = c.get r) : Ready hc c' where
  r12 := (hget .r12 rfl).trans hready.r12
  r14 := (hget .r14 rfl).trans hready.r14
  r15 := (hget .r15 rfl).trans hready.r15

theorem runBlock_ready (hready : Ready hc c) (indicator : Indicator) (param : Nat → Word)
    (vm : Vm) :
    Wp (runBlock hc indicator param c) (fun r _ => Ready hc r.2) (fun _ _ => True) vm := by
  have hsound : zeroDiscipline.Sound (hostEnv hc) param c.get (fun _ _ => True)
      fun _ _ => True := by
    constructor
    · decide
    · exact fun _ _ _ _ _ _ _ _ _ => True.intro
    · exact fun _ _ _ _ _ _ _ _ _ _ _ => True.intro
    · intro f d d' c' s _ _
      exact wp_of_runs (fun _ _ _ => True.intro) fun _ _ _ => True.intro
    · exact fun _ _ _ => True.intro
  refine wp_mono (Discipline.exec_follows hsound (template_follows indicator) (keeps_self c)
    True.intro) ?_ fun _ _ he => he
  exact fun r t hended => ready_of_kept hready hended.1

/-- Whatever block runs, it ends with `x0` clean, or traps with `x0` clean. -/
theorem runBlock_clean (hready : Ready hc c) (indicator : Indicator) (param : Nat → Word) {vm : Vm}
    (h : Clean vm.hart) :
    Wp (runBlock hc indicator param c) (fun r t => Ready hc r.2 ∧ Clean t.hart) CleanTrap vm := by
  refine wp_mono (Discipline.exec_follows (zeroDiscipline_sound hready param)
    (template_follows indicator) (keeps_self c) fun _ => h) ?_ fun _ _ he => he
  rintro ⟨e, c'⟩ t ⟨hget, dirty, hfinal, ht⟩
  exact ⟨ready_of_kept hready hget, ht (by simpa [zeroDiscipline] using hfinal)⟩

end Block

/-! ## Runs -/

/--
The points at which guest code can look at its registers, with the host
registers control is handed on with: instruction boundaries, trap entries, and
the way through the vmm between them.
-/
inductive Reached (hc : HostCode) : Vm → Cpu → Prop
  | start {vm : Vm} (reset : vm.hart = initialHart) : Reached hc vm (entryCpu hc)
  /-- `vmresume` loads the context registers again. -/
  | enter {vm : Vm} {c : Cpu} (reached : Reached hc vm c) : Reached hc vm (entryCpu hc)
  /-- An instruction retires, whichever it is. -/
  | block {vm t : Vm} {c : Cpu} {r : End × Cpu} (indicator : Indicator) (param : Nat → Word)
      (reached : Reached hc vm c) (ran : runBlock hc indicator param c vm = .ok r t) :
      Reached hc t r.2
  /-- An instruction traps. -/
  | trap {vm t : Vm} {c : Cpu} (indicator : Indicator) (param : Nat → Word)
      (reached : Reached hc vm c) (ran : runBlock hc indicator param c vm = .error .trap t) :
      Reached hc t c
  | prefetch {vm t : Vm} {c : Cpu} (reached : Reached hc vm c)
      (ran : prefetchInstructions hc vm = .ok () t ∨ prefetchInstructions hc vm = .error .trap t) :
      Reached hc t c
  | pump {vm t : Vm} {c : Cpu} (reached : Reached hc vm c)
      (ran : pumpDevicesAndDeliverInterrupts vm = .ok () t ∨
        pumpDevicesAndDeliverInterrupts vm = .error .trap t) : Reached hc t c

section Run

variable {hc : HostCode} {vm : Vm} {c : Cpu}

/-- Either way out of a computation that keeps `x0` clean. -/
theorem clean_of_ends {m : VmM Unit} (hm : Ends (OnHart Clean) CleanTrap m) {vm t : Vm}
    (h : Clean vm.hart) (ran : m vm = .ok () t ∨ m vm = .error .trap t) : Clean t.hart := by
  have hwp := hm vm h
  rcases ran with ran | ran
  · exact (wp_of_ok ran).mp hwp
  · exact (wp_of_error ran).mp hwp rfl

theorem ends_prefetch_clean : Ends (OnHart Clean) CleanTrap (prefetchInstructions hc) :=
  ends_prefetchInstructions fillClosed_clean prefetchClosed_clean leaves_clean
    (fun _ _ => True.intro) hc

theorem ends_pump_clean : Ends (OnHart Clean) CleanTrap pumpDevicesAndDeliverInterrupts :=
  ends_pumpDevicesAndDeliverInterrupts eventClosed_clean.refresh leaves_clean
    fun _ _ _ _ _ => True.intro

theorem Reached.clean (h : Reached hc vm c) : Ready hc c ∧ Clean vm.hart := by
  induction h with
  | start reset =>
      constructor
      · exact ready_entryCpu hc
      · rw [reset]
        rfl
  | enter _ ih => exact ⟨ready_entryCpu hc, ih.2⟩
  | block indicator param _ ran ih =>
      have hwp := runBlock_clean ih.1 indicator param ih.2
      exact (wp_of_ok ran).mp hwp
  | trap indicator param _ ran ih =>
      have hwp := runBlock_clean ih.1 indicator param ih.2
      exact ⟨ih.1, (wp_of_error ran).mp hwp rfl⟩
  | prefetch _ ran ih => exact ⟨ih.1, clean_of_ends ends_prefetch_clean ih.2 ran⟩
  | pump _ ran ih => exact ⟨ih.1, clean_of_ends ends_pump_clean ih.2 ran⟩

/-! ## The vmm's own loop -/

/-- Wherever control is, it got there through the points above. -/
abbrev Continues (hc : HostCode) (vm : Vm) : Prop :=
  ∃ c, Reached hc vm c

abbrev ContinuesTrap (hc : HostCode) (e : Abort) (vm : Vm) : Prop :=
  e = .trap → Continues hc vm

theorem runCache_continues (steps offset : Nat) (h : Reached hc vm c) :
    Wp (runCache hc steps offset c) (fun _ t => Continues hc t) (ContinuesTrap hc) vm := by
  induction steps generalizing offset vm c with
  | zero => exact ⟨c, h⟩
  | succ steps ih =>
      unfold runCache
      rw [wp_bind, wp_get]
      split
      · exact ⟨c, h⟩
      · rename_i pc indicator unit _
        rw [wp_bind]
        apply wp_of_runs
        · intro r t hrun
          have ht := Reached.block indicator _ h hrun
          split
          · exact ih _ ht
          · exact ⟨_, ht⟩
        · intro e t hrun htrap
          subst htrap
          exact ⟨c, .trap indicator _ h hrun⟩
      · intro htrap
        cases htrap

theorem vmresume_continues (h : Reached hc vm c) :
    Wp (vmresume hc) (fun _ t => Continues hc t) (ContinuesTrap hc) vm := by
  unfold vmresume
  rw [wp_bind]
  apply wp_of_runs
  · intro _ t hrun
    have ht := Reached.prefetch h (.inl hrun)
    rw [wp_bind, wp_get]
    cases searchTranslationItem t.hart.pcMappings t.hart.pc with
    | none =>
        intro htrap
        cases htrap
    | some ti => exact runCache_continues _ ti.tcOffset ht.enter
  · intro e t hrun htrap
    subst htrap
    exact ⟨c, .prefetch h (.inr hrun)⟩

theorem vmexit_continues (h : Reached hc vm c) :
    Wp (vmexit hc) (fun _ t => Continues hc t) (ContinuesTrap hc) vm := by
  unfold vmexit
  rw [wp_bind]
  apply wp_of_runs
  · intro _ t hrun
    exact vmresume_continues (.pump h (.inl hrun))
  · intro e t hrun htrap
    subst htrap
    exact ⟨c, .pump h (.inr hrun)⟩

end Run

/--
From power-on, whatever the guest runs and wherever it is trapped or
interrupted, `x0` is zero at every instruction boundary and at every trap
entry.  The loop of the vmm goes only through such points.
-/
theorem zero_register_always_zero {hc : HostCode} {vm : Vm} {c : Cpu} (h : Reached hc vm c) :
    vm.hart.registers 0 = 0 ∧
      Wp (vmexit hc) (fun _ t => ∃ c', Reached hc t c')
        (fun e t => e = .trap → ∃ c', Reached hc t c') vm :=
  ⟨h.clean.2, vmexit_continues h⟩

/-- The parameters of `addi x0, x0, 5`. -/
def intoZeroParam (k : Nat) : Word :=
  if k = 0 then 5 else 0

/-- `addi x0, x0, 5` as the first instruction after reset. -/
theorem zero_register_after_addi :
    ∃ r t, runBlock evenHostCode .addi intoZeroParam (entryCpu evenHostCode)
        (virtualMachineInit (fun _ => 0) fun _ => 0) = .ok r t ∧
      Reached evenHostCode t r.2 ∧ t.hart.registers 0 = 0 := by
  have hrun : isOk (runBlock evenHostCode .addi intoZeroParam (entryCpu evenHostCode)
      (virtualMachineInit (fun _ => 0) fun _ => 0)) = true := by decide +kernel
  obtain ⟨r, hok⟩ := eq_ok_of_isOk hrun
  have hreached := Reached.block .addi intoZeroParam (.start rfl) hok
  exact ⟨r, _, hok, hreached, (zero_register_always_zero hreached).1⟩

end Zelda.Proofs.ZeroRegister
