import Zelda.Proofs.Runs
/-!
# Trap entry and return

A trap never lowers the level and records the level it leaves exactly, and a
return undoes it whatever the handler did in between with other state.
-/

namespace Zelda.Proofs.TrapNesting

open Zelda.Vmm
open Zelda.Lib.Effect
open Zelda.Lib.X86
open Zelda.Proofs.Frames
open Zelda.Proofs.Callees
open Zelda.Proofs.Runs

/-! ## Levels -/

/-- One of the three levels the hart implements. -/
def ValidLevel (h : Hart) : Prop :=
  h.privilegeLevel = PRIVILEGE_LEVEL_USER ∨ h.privilegeLevel = PRIVILEGE_LEVEL_SUPERVISOR ∨
    h.privilegeLevel = PRIVILEGE_LEVEL_MACHINE

theorem csrClosed_validLevel : CsrClosed ValidLevel where
  interrupts _ _ _ _ hh := hh
  setStatus _ _ hh := hh
  setCsrBlob _ _ _ _ hh := hh
  writeSatp _ _ hh := hh

theorem validLevel_of_bit (b : BitVec 1) :
    b.setWidth 2 = PRIVILEGE_LEVEL_USER ∨ b.setWidth 2 = PRIVILEGE_LEVEL_SUPERVISOR := by
  revert b
  decide

theorem controlInvariant_validLevel : ControlInvariant ValidLevel where
  same hh hsame := by
    unfold ValidLevel
    rw [hsame.privilegeLevel]
    exact hh
  refresh _ _ _ hh := hh
  csrWrite vm value hcsr hf _ hh := csrClosed_validLevel.csrWrite vm value hcsr hf hh
  mret _ _ hmpp _ := hmpp
  sret h _ _ := by
    rcases validLevel_of_bit h.status.spp with hlevel | hlevel
    · exact .inl hlevel
    · exact .inr (.inl hlevel)
  trap h level cause tval _ _ := by
    split
    · exact .inr (.inr rfl)
    · exact .inr (.inl rfl)

/-- The level a trap goes to, seen from the level it leaves. -/
structure Upward (h : Hart) (level : BitVec 2) : Prop where
  target : level = PRIVILEGE_LEVEL_SUPERVISOR ∨ level = PRIVILEGE_LEVEL_MACHINE
  le : h.privilegeLevel ≤ level
  below : level = PRIVILEGE_LEVEL_SUPERVISOR →
    h.privilegeLevel = PRIVILEGE_LEVEL_USER ∨ h.privilegeLevel = PRIVILEGE_LEVEL_SUPERVISOR

theorem le_machine (level : BitVec 2) : level ≤ PRIVILEGE_LEVEL_MACHINE := by
  revert level
  decide

theorem upward_machine (h : Hart) : Upward h PRIVILEGE_LEVEL_MACHINE :=
  ⟨.inr rfl, le_machine _, fun hlevel => absurd hlevel (by decide)⟩

theorem upward_supervisor {h : Hart}
    (hlevel : h.privilegeLevel = PRIVILEGE_LEVEL_USER ∨
      h.privilegeLevel = PRIVILEGE_LEVEL_SUPERVISOR) : Upward h PRIVILEGE_LEVEL_SUPERVISOR := by
  refine ⟨.inl rfl, ?_, fun _ => hlevel⟩
  rcases hlevel with hlevel | hlevel
  · rw [hlevel]
    decide
  · rw [hlevel]
    decide

theorem upward_exception {h : Hart} (hh : ValidLevel h) (cause : Nat) :
    Upward h (h.exceptionTargetPrivilegeLevel cause) := by
  unfold Hart.exceptionTargetPrivilegeLevel
  split
  · rename_i hdelegated
    apply upward_supervisor
    rcases hh with hlevel | hlevel | hlevel
    · exact .inl hlevel
    · exact .inr hlevel
    · exact absurd hlevel hdelegated.1
  · exact upward_machine h

/-- The deliverability test excludes every target below the current level. -/
theorem le_target_of_deliverable {h : Hart} {vector : Nat}
    (hdeliverable : h.isInterruptDeliverable vector = true) :
    h.privilegeLevel ≤ h.interruptTargetPrivilegeLevel vector := by
  unfold Hart.isInterruptDeliverable at hdeliverable
  simp only at hdeliverable
  split at hdeliverable
  · cases hdeliverable
  split at hdeliverable
  · cases hdeliverable
  · rename_i hnot
    exact Std.not_lt.mp hnot

theorem upward_interrupt {h : Hart} {vector : Nat}
    (hdeliverable : h.isInterruptDeliverable vector = true) :
    Upward h (h.interruptTargetPrivilegeLevel vector) := by
  have hle := le_target_of_deliverable hdeliverable
  unfold Hart.interruptTargetPrivilegeLevel at hle ⊢
  split at hle
  · rename_i hdelegated
    rw [if_pos hdelegated]
    apply upward_supervisor
    revert hle
    generalize h.privilegeLevel = level
    revert level
    decide
  · rename_i hdelegated
    rw [if_neg hdelegated]
    exact upward_machine h

theorem upward_of_takes {h : Hart} (hh : ValidLevel h) {level : BitVec 2} {cause : Word}
    (htakes : Takes h level cause) : Upward h level := by
  cases htakes with
  | exception cause lt => exact upward_exception hh cause
  | interrupt vector mem deliverable => exact upward_interrupt deliverable

/-! ## Entry -/

/-- The machine right after a trap. -/
def trapped (s : Vm) (level : BitVec 2) (cause tval : Word) : Vm :=
  { s with hart := s.hart.takeTrap level cause tval }

theorem takeTrap_machine (h : Hart) (cause tval : Word) :
    SameControl (h.setupMmodeTrap cause tval) (h.takeTrap PRIVILEGE_LEVEL_MACHINE cause tval) :=
  sameControl_flushOnChange _ _

theorem takeTrap_supervisor (h : Hart) (cause tval : Word) :
    SameControl (h.setupSmodeTrap cause tval) (h.takeTrap PRIVILEGE_LEVEL_SUPERVISOR cause tval) :=
  sameControl_flushOnChange _ _

/-- A machine trap writes three CSRs and no other. -/
theorem csrBlob_setupMmodeTrap (h : Hart) (cause tval : Word) {address : CsrAddress}
    (hcause : address ≠ CSR_ADDRESS_MCAUSE) (htval : address ≠ CSR_ADDRESS_MTVAL)
    (hepc : address ≠ CSR_ADDRESS_MEPC) :
    (h.setupMmodeTrap cause tval).csrBlob address = h.csrBlob address := by
  show Function.update (Function.update (Function.update h.csrBlob _ _) _ _) _ _ address = _
  rw [Function.update_of_ne hepc, Function.update_of_ne htval, Function.update_of_ne hcause]

theorem spp_recorded {level : BitVec 2}
    (h : level = PRIVILEGE_LEVEL_USER ∨ level = PRIVILEGE_LEVEL_SUPERVISOR) :
    (level.setWidth 1).setWidth 2 = level := by
  rcases h with rfl | rfl
  · rfl
  · rfl

/-! ## Return -/

theorem mretCallback_apply {t : Vm} (hlevel : t.hart.privilegeLevel = PRIVILEGE_LEVEL_MACHINE)
    (hmpp : t.hart.status.mpp = PRIVILEGE_LEVEL_USER ∨
      t.hart.status.mpp = PRIVILEGE_LEVEL_SUPERVISOR ∨
      t.hart.status.mpp = PRIVILEGE_LEVEL_MACHINE) :
    mretCallback t = .ok () { t with hart := t.hart.returnFromMmode } := by
  have hcheck : assertHartRunningInMmode t = .ok () t := by
    unfold assertHartRunningInMmode
    rw [bind_apply_ok (get_apply t), if_neg (not_not.mpr hlevel)]
    rfl
  unfold mretCallback
  rw [bind_apply_ok hcheck, bind_apply_ok (get_apply t)]
  have hassert : (t.hart.status.mpp == PRIVILEGE_LEVEL_USER ||
      t.hart.status.mpp == PRIVILEGE_LEVEL_SUPERVISOR ||
      t.hart.status.mpp == PRIVILEGE_LEVEL_MACHINE) = true := by
    rw [Bool.or_eq_true, Bool.or_eq_true, beq_iff_eq, beq_iff_eq, beq_iff_eq, or_assoc]
    exact hmpp
  rw [hassert]
  rfl

theorem sretCallback_apply {t : Vm}
    (hlevel : t.hart.privilegeLevel = PRIVILEGE_LEVEL_SUPERVISOR) :
    sretCallback t = .ok () { t with hart := t.hart.returnFromSmode } := by
  have hcheck : assertHartRunningInSmode t = .ok () t := by
    unfold assertHartRunningInSmode
    rw [bind_apply_ok (get_apply t), if_neg (not_not.mpr hlevel)]
    rfl
  unfold sretCallback
  rw [bind_apply_ok hcheck]
  rfl

theorem returnFromMmode_control (h : Hart) :
    SameControl h.adjustMstatusUponMret.adjustPcUponMret h.returnFromMmode ∧
      h.returnFromMmode.pc = h.csrBlob CSR_ADDRESS_MEPC := by
  unfold Hart.returnFromMmode
  refine ⟨sameControl_flushOnChange _ _, ?_⟩
  rw [flushOnChange_frame]
  rfl

theorem returnFromSmode_control (h : Hart) :
    SameControl h.adjustMstatusUponSret.adjustPcUponSret h.returnFromSmode ∧
      h.returnFromSmode.pc = h.csrBlob CSR_ADDRESS_SEPC := by
  unfold Hart.returnFromSmode
  refine ⟨sameControl_flushOnChange _ _, ?_⟩
  rw [flushOnChange_frame]
  rfl

/-! ## Handlers -/

/-- A step that writes none of `mstatus`, `mepc` and the level. -/
structure MachineQuiet (t t' : Vm) : Prop where
  privilegeLevel : t'.hart.privilegeLevel = t.hart.privilegeLevel
  status : t'.hart.status = t.hart.status
  mepc : t'.hart.csrBlob CSR_ADDRESS_MEPC = t.hart.csrBlob CSR_ADDRESS_MEPC

/-- A step that leaves the supervisor's trap registers alone as well. -/
structure SparesSupervisor (t t' : Vm) : Prop extends MachineQuiet t t' where
  sepc : t'.hart.csrBlob CSR_ADDRESS_SEPC = t.hart.csrBlob CSR_ADDRESS_SEPC
  scause : t'.hart.csrBlob CSR_ADDRESS_SCAUSE = t.hart.csrBlob CSR_ADDRESS_SCAUSE
  stval : t'.hart.csrBlob CSR_ADDRESS_STVAL = t.hart.csrBlob CSR_ADDRESS_STVAL

/-- A step that writes none of `sstatus`, `sepc` and the level. -/
structure SupervisorQuiet (t t' : Vm) : Prop where
  privilegeLevel : t'.hart.privilegeLevel = t.hart.privilegeLevel
  uie : t'.hart.status.uie = t.hart.status.uie
  sie : t'.hart.status.sie = t.hart.status.sie
  upie : t'.hart.status.upie = t.hart.status.upie
  spie : t'.hart.status.spie = t.hart.status.spie
  spp : t'.hart.status.spp = t.hart.status.spp
  sepc : t'.hart.csrBlob CSR_ADDRESS_SEPC = t.hart.csrBlob CSR_ADDRESS_SEPC

/-- A complete round through machine level: trap, steps of the handler, return. -/
def MachineRound (step : Vm → Vm → Prop) (t t' : Vm) : Prop :=
  ∃ cause tval m, Relation.ReflTransGen step (trapped t PRIVILEGE_LEVEL_MACHINE cause tval) m ∧
    mretCallback m = .ok () t'

/-- A step of a supervisor handler, or a round through machine level with the given steps. -/
def HandlerStep (step : Vm → Vm → Prop) (t t' : Vm) : Prop :=
  SupervisorQuiet t t' ∨ MachineRound step t t'

theorem machineQuiet_steps {t m : Vm} (h : Relation.ReflTransGen MachineQuiet t m) :
    MachineQuiet t m := by
  induction h with
  | refl => exact ⟨rfl, rfl, rfl⟩
  | tail _ hstep ih =>
      exact ⟨hstep.privilegeLevel.trans ih.privilegeLevel, hstep.status.trans ih.status,
        hstep.mepc.trans ih.mepc⟩

theorem sparesSupervisor_steps {t m : Vm} (h : Relation.ReflTransGen SparesSupervisor t m) :
    SparesSupervisor t m := by
  induction h with
  | refl => exact ⟨⟨rfl, rfl, rfl⟩, rfl, rfl, rfl⟩
  | tail _ hstep ih =>
      exact ⟨⟨hstep.privilegeLevel.trans ih.privilegeLevel, hstep.status.trans ih.status,
        hstep.mepc.trans ih.mepc⟩, hstep.sepc.trans ih.sepc, hstep.scause.trans ih.scause,
        hstep.stval.trans ih.stval⟩

/-- The machine after a return from a machine handler entered from `s`. -/
structure ReturnedFromMachine (s u : Vm) : Prop where
  pc : u.hart.pc = s.hart.pc
  privilegeLevel : u.hart.privilegeLevel = s.hart.privilegeLevel
  status : u.hart.status = { s.hart.status with mpie := true, mpp := PRIVILEGE_LEVEL_USER }

theorem mret_after_quiet {s m : Vm} (hs : ValidLevel s.hart) {cause tval : Word}
    (hquiet : MachineQuiet (trapped s PRIVILEGE_LEVEL_MACHINE cause tval) m) :
    mretCallback m = .ok () { m with hart := m.hart.returnFromMmode } ∧
      ReturnedFromMachine s { m with hart := m.hart.returnFromMmode } := by
  have hentry := takeTrap_machine s.hart cause tval
  have hlevel : m.hart.privilegeLevel = PRIVILEGE_LEVEL_MACHINE :=
    hquiet.privilegeLevel.trans hentry.privilegeLevel
  have hstatus : m.hart.status =
      { s.hart.status with mpp := s.hart.privilegeLevel, mpie := s.hart.status.mie, mie := false } :=
    hquiet.status.trans hentry.status
  have hmepc : m.hart.csrBlob CSR_ADDRESS_MEPC = s.hart.pc :=
    hquiet.mepc.trans (congrFun hentry.csrBlob _)
  have hmpp : m.hart.status.mpp = s.hart.privilegeLevel := by rw [hstatus]
  obtain ⟨hcontrol, hpc⟩ := returnFromMmode_control m.hart
  refine ⟨mretCallback_apply hlevel (by rw [hmpp]; exact hs), ?_, ?_, ?_⟩
  · exact hpc.trans hmepc
  · exact hcontrol.privilegeLevel.trans hmpp
  · refine hcontrol.status.trans ?_
    show { m.hart.status with
      mpp := PRIVILEGE_LEVEL_USER, mie := m.hart.status.mpie, mpie := true } = _
    rw [hstatus]

/-- A round whose steps spare the supervisor is invisible to it. -/
structure RoundInvisible (t t' : Vm) : Prop extends ReturnedFromMachine t t' where
  sepc : t'.hart.csrBlob CSR_ADDRESS_SEPC = t.hart.csrBlob CSR_ADDRESS_SEPC
  scause : t'.hart.csrBlob CSR_ADDRESS_SCAUSE = t.hart.csrBlob CSR_ADDRESS_SCAUSE
  stval : t'.hart.csrBlob CSR_ADDRESS_STVAL = t.hart.csrBlob CSR_ADDRESS_STVAL

theorem roundInvisible {t t' : Vm} (ht : ValidLevel t.hart)
    (hround : MachineRound SparesSupervisor t t') : RoundInvisible t t' := by
  obtain ⟨cause, tval, m, hsteps, hmret⟩ := hround
  have hspares := sparesSupervisor_steps hsteps
  obtain ⟨happly, hreturned⟩ := mret_after_quiet ht hspares.toMachineQuiet
  rw [hmret] at happly
  cases happly
  have hblob : ∀ address, address ≠ CSR_ADDRESS_MCAUSE → address ≠ CSR_ADDRESS_MTVAL →
      address ≠ CSR_ADDRESS_MEPC →
      (trapped t PRIVILEGE_LEVEL_MACHINE cause tval).hart.csrBlob address =
        t.hart.csrBlob address := by
    intro address hcause htval hepc
    exact (congrFun (takeTrap_machine t.hart cause tval).csrBlob address).trans
      (csrBlob_setupMmodeTrap t.hart cause tval hcause htval hepc)
  have hreturn : m.hart.returnFromMmode.csrBlob = m.hart.csrBlob :=
    (returnFromMmode_control m.hart).1.csrBlob
  refine ⟨hreturned, ?_, ?_, ?_⟩
  · exact (congrFun hreturn _).trans
      (hspares.sepc.trans (hblob _ (by decide) (by decide) (by decide)))
  · exact (congrFun hreturn _).trans
      (hspares.scause.trans (hblob _ (by decide) (by decide) (by decide)))
  · exact (congrFun hreturn _).trans
      (hspares.stval.trans (hblob _ (by decide) (by decide) (by decide)))

/-- What a supervisor handler entered from `s` keeps up to its return. -/
structure InHandler (s m : Vm) : Prop where
  privilegeLevel : m.hart.privilegeLevel = PRIVILEGE_LEVEL_SUPERVISOR
  spie : m.hart.status.spie = s.hart.status.sie
  spp : m.hart.status.spp = s.hart.privilegeLevel.setWidth 1
  sepc : m.hart.csrBlob CSR_ADDRESS_SEPC = s.hart.pc

theorem inHandler_trapped (s : Vm) (cause tval : Word) :
    InHandler s (trapped s PRIVILEGE_LEVEL_SUPERVISOR cause tval) := by
  have hentry := takeTrap_supervisor s.hart cause tval
  refine ⟨hentry.privilegeLevel, ?_, ?_, ?_⟩
  · exact congrArg Status.spie hentry.status
  · exact congrArg Status.spp hentry.status
  · exact congrFun hentry.csrBlob _

theorem inHandler_step {s t t' : Vm} (h : InHandler s t) (hstep : HandlerStep SparesSupervisor t t') :
    InHandler s t' := by
  rcases hstep with hquiet | hround
  · exact ⟨hquiet.privilegeLevel.trans h.privilegeLevel, hquiet.spie.trans h.spie,
      hquiet.spp.trans h.spp, hquiet.sepc.trans h.sepc⟩
  · have hinvisible := roundInvisible (.inr (.inl h.privilegeLevel)) hround
    refine ⟨hinvisible.privilegeLevel.trans h.privilegeLevel, ?_, ?_, hinvisible.sepc.trans h.sepc⟩
    · rw [hinvisible.status]
      exact h.spie
    · rw [hinvisible.status]
      exact h.spp

theorem inHandler_steps {s m : Vm} {cause tval : Word}
    (h : Relation.ReflTransGen (HandlerStep SparesSupervisor)
      (trapped s PRIVILEGE_LEVEL_SUPERVISOR cause tval) m) : InHandler s m := by
  induction h with
  | refl => exact inHandler_trapped s cause tval
  | tail _ hstep ih => exact inHandler_step ih hstep

/-! ## Nesting -/

/-- Every trap an operation ends in goes up, and `spp` records the level exactly. -/
def TrapsUpward (hc : HostCode) (vm : Vm) : Prop :=
  ∀ op t, Operation.run hc op vm = .error .trap t →
    ∃ s level cause tval, Takes s.hart level cause ∧ t = trapped s level cause tval ∧
      s.hart.privilegeLevel ≤ level ∧
      (level = PRIVILEGE_LEVEL_SUPERVISOR →
        (s.hart.privilegeLevel = PRIVILEGE_LEVEL_USER ∨
          s.hart.privilegeLevel = PRIVILEGE_LEVEL_SUPERVISOR) ∧
        t.hart.status.spp.setWidth 2 = s.hart.privilegeLevel)

/-- A machine trap from `s` is undone by `mret` after any quiet steps. -/
def MachineTrapReturns (s : Vm) : Prop :=
  ∀ cause tval m,
    Relation.ReflTransGen MachineQuiet (trapped s PRIVILEGE_LEVEL_MACHINE cause tval) m →
    ∃ u, mretCallback m = .ok () u ∧ u.hart.pc = s.hart.pc ∧
      u.hart.privilegeLevel = s.hart.privilegeLevel ∧ u.hart.status.mie = s.hart.status.mie ∧
      u.hart.status.mpie = true ∧ u.hart.status.mpp = PRIVILEGE_LEVEL_USER

/-- A supervisor trap from `s` is undone by `sret` after quiet steps and rounds of `step`. -/
def SupervisorTrapReturns (step : Vm → Vm → Prop) (s : Vm) : Prop :=
  ∀ cause tval m,
    Relation.ReflTransGen (HandlerStep step) (trapped s PRIVILEGE_LEVEL_SUPERVISOR cause tval) m →
    ∃ u, sretCallback m = .ok () u ∧ u.hart.pc = s.hart.pc ∧
      u.hart.privilegeLevel = s.hart.privilegeLevel ∧ u.hart.status.sie = s.hart.status.sie ∧
      u.hart.status.spie = true ∧ u.hart.status.spp = 0

/-- A round of `step` leaves the supervisor's status bits and trap registers alone. -/
def RoundSpares (step : Vm → Vm → Prop) (t : Vm) : Prop :=
  ∀ t', MachineRound step t t' →
    t'.hart.status.sie = t.hart.status.sie ∧ t'.hart.status.spie = t.hart.status.spie ∧
    t'.hart.status.spp = t.hart.status.spp ∧
    t'.hart.csrBlob CSR_ADDRESS_SEPC = t.hart.csrBlob CSR_ADDRESS_SEPC ∧
    t'.hart.csrBlob CSR_ADDRESS_SCAUSE = t.hart.csrBlob CSR_ADDRESS_SCAUSE ∧
    t'.hart.csrBlob CSR_ADDRESS_STVAL = t.hart.csrBlob CSR_ADDRESS_STVAL

theorem trapsUpward {hc : HostCode} {vm : Vm} (h : ValidLevel vm.hart) : TrapsUpward hc vm := by
  intro op t hrun
  have hend := ends_operation controlInvariant_validLevel hc op vm h
  rw [wp_of_error hrun] at hend
  obtain ⟨s, level, cause, tval, hs, htakes, rfl⟩ := hend.2 rfl
  have hup := upward_of_takes hs htakes
  refine ⟨s, level, cause, tval, htakes, rfl, hup.le, fun hlevel => ⟨hup.below hlevel, ?_⟩⟩
  subst hlevel
  have hspp : (trapped s PRIVILEGE_LEVEL_SUPERVISOR cause tval).hart.status.spp =
      s.hart.privilegeLevel.setWidth 1 := (inHandler_trapped s cause tval).spp
  exact (congrArg (BitVec.setWidth 2) hspp).trans (spp_recorded (hup.below rfl))

theorem machineTrapReturns {s : Vm} (hs : ValidLevel s.hart) : MachineTrapReturns s := by
  intro cause tval m hsteps
  obtain ⟨happly, hreturned⟩ := mret_after_quiet hs (machineQuiet_steps hsteps)
  refine ⟨_, happly, hreturned.pc, hreturned.privilegeLevel, ?_, ?_, ?_⟩
  · rw [hreturned.status]
  · rw [hreturned.status]
  · rw [hreturned.status]

theorem supervisorTrapReturns {s : Vm}
    (hs : s.hart.privilegeLevel = PRIVILEGE_LEVEL_USER ∨
      s.hart.privilegeLevel = PRIVILEGE_LEVEL_SUPERVISOR) :
    SupervisorTrapReturns SparesSupervisor s := by
  intro cause tval m hsteps
  have hin := inHandler_steps hsteps
  obtain ⟨hcontrol, hpc⟩ := returnFromSmode_control m.hart
  refine ⟨_, sretCallback_apply hin.privilegeLevel, hpc.trans hin.sepc, ?_, ?_, ?_, ?_⟩
  · refine hcontrol.privilegeLevel.trans ?_
    show m.hart.status.spp.setWidth 2 = _
    rw [hin.spp]
    exact spp_recorded hs
  · exact (congrArg Status.sie hcontrol.status).trans hin.spie
  · exact congrArg Status.spie hcontrol.status
  · exact congrArg Status.spp hcontrol.status

/-- Traps and returns nest, as long as machine handlers spare the supervisor's trap registers. -/
theorem traps_nest :
    (∀ hc vm, Reachable hc vm → ValidLevel vm.hart ∧ TrapsUpward hc vm) ∧
    (∀ s : Vm, ValidLevel s.hart → MachineTrapReturns s) ∧
    (∀ s : Vm, (s.hart.privilegeLevel = PRIVILEGE_LEVEL_USER ∨
      s.hart.privilegeLevel = PRIVILEGE_LEVEL_SUPERVISOR) →
      SupervisorTrapReturns SparesSupervisor s) ∧
    (∀ t : Vm, ValidLevel t.hart → RoundSpares SparesSupervisor t) := by
  refine ⟨?_, fun s hs => machineTrapReturns hs, fun s hs => supervisorTrapReturns hs, ?_⟩
  · intro hc vm hreach
    have hlevel := hreach.invariant controlInvariant_validLevel (.inr (.inr rfl))
    exact ⟨hlevel, trapsUpward hlevel⟩
  · intro t ht t' hround
    have hinvisible := roundInvisible ht hround
    refine ⟨?_, ?_, ?_, hinvisible.sepc, hinvisible.scause, hinvisible.stval⟩
    · rw [hinvisible.status]
    · rw [hinvisible.status]
    · rw [hinvisible.status]

/-! ## A machine handler that moves `sepc` -/

/-- Supervisor code at the start of RAM. -/
def supervisorVm : Vm :=
  let vm := virtualMachineInit (fun _ => 0) fun _ => 0
  { vm with hart :=
    { vm.hart with privilegeLevel := PRIVILEGE_LEVEL_SUPERVISOR, pc := 0x80000000 } }

/-- It traps to its own level, and its handler traps on to machine level. -/
def handlerVm : Vm := trapped supervisorVm PRIVILEGE_LEVEL_SUPERVISOR 2 0

def monitorVm : Vm := trapped handlerVm PRIVILEGE_LEVEL_MACHINE 9 0

/-- `csrrwi x0, sepc, 4` writes none of `mstatus`, `mepc` and the level. -/
def movedVm : Vm := finalState (riscvGenericCsrCallback 0x14125073 monitorVm)

def resumedVm : Vm := finalState (mretCallback movedVm)

theorem machine_round_moves_sepc :
    ¬(∀ s : Vm, (s.hart.privilegeLevel = PRIVILEGE_LEVEL_USER ∨
        s.hart.privilegeLevel = PRIVILEGE_LEVEL_SUPERVISOR) →
        SupervisorTrapReturns MachineQuiet s) ∧
      ¬RoundSpares MachineQuiet handlerVm ∧ movedVm.hart.csrBlob CSR_ADDRESS_SEPC = 4 := by
  have hquiet : MachineQuiet monitorVm movedVm :=
    ⟨by decide +kernel, by decide +kernel, by decide +kernel⟩
  have hround : MachineRound MachineQuiet handlerVm resumedVm :=
    ⟨9, 0, movedVm, .single hquiet, mretCallback_apply (by decide +kernel) (by decide +kernel)⟩
  refine ⟨fun hall => ?_, fun hspares => ?_, by decide +kernel⟩
  · obtain ⟨u, hsret, hpc, -⟩ := hall supervisorVm (.inr rfl) 2 0 resumedVm (.single (.inr hround))
    rw [sretCallback_apply (by decide +kernel)] at hsret
    cases hsret
    exact absurd hpc (by decide +kernel)
  · exact absurd (hspares resumedVm hround).2.2.2.1 (by decide +kernel)

end Zelda.Proofs.TrapNesting
