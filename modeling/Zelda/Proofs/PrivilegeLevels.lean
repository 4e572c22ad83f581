import Zelda.Proofs.CsrInstructions
import Zelda.Proofs.TrapNesting
/-!
# Legal privilege levels

The level of the hart and the level saved for `mret` are among the three that
exist, as long as no instruction writes the reserved encoding to `mstatus`.
Nothing in the write of `mstatus` prevents that.
-/

namespace Zelda.Proofs.PrivilegeLevels

open Zelda.Vmm
open Zelda.Lib.Effect
open Zelda.Lib.X86
open Zelda.Proofs.Frames
open Zelda.Proofs.Callees
open Zelda.Proofs.Runs
open Zelda.Proofs.Templates
open Zelda.Proofs.TrapNesting
open Zelda.Proofs.CsrAccess
open Zelda.Proofs.CsrInstructions

/-! ## Legality -/

/-- One of the levels that exist; the encoding 2 is reserved. -/
def LegalLevel (level : BitVec 2) : Prop :=
  level = PRIVILEGE_LEVEL_USER ∨ level = PRIVILEGE_LEVEL_SUPERVISOR ∨
    level = PRIVILEGE_LEVEL_MACHINE

theorem legalLevel_iff (level : BitVec 2) : LegalLevel level ↔ level ≠ 2 := by
  unfold LegalLevel
  revert level
  decide

/-- Both privilege fields are legal. -/
structure Legal (h : Hart) : Prop where
  level : LegalLevel h.privilegeLevel
  mpp : LegalLevel h.status.mpp

/-- The privilege fields are legal, and neither `mret` nor `ecall` ends the emulator. -/
structure PrivilegeLegal (vm : Vm) : Prop where
  fields : Legal vm.hart
  mret : ∀ t, mretCallback vm ≠ .error .exit t
  ecall : ∀ t, ecallCallback vm ≠ .error .exit t

theorem raiseException_ne_exit {α : Type} {cause : Nat} (hlt : cause < 16) {vm t : Vm} :
    (raiseException cause : VmM α) vm ≠ .error .exit t := by
  rw [raiseException, raiseExceptionWithTvalue_apply 0 vm hlt]
  simp

theorem mretCallback_ne_exit {vm t : Vm} (h : LegalLevel vm.hart.status.mpp) :
    mretCallback vm ≠ .error .exit t := by
  by_cases hlevel : vm.hart.privilegeLevel = PRIVILEGE_LEVEL_MACHINE
  · rw [mretCallback_apply hlevel h]
    simp
  · have hassert : assertHartRunningInMmode vm = raiseException EXCEPTION_ILLEEGAL_INSTRUCTION vm := by
      unfold assertHartRunningInMmode
      rw [bind_apply_ok (get_apply vm), if_pos hlevel]
    intro hexit
    unfold mretCallback at hexit
    rw [raiseException, raiseExceptionWithTvalue_apply 0 vm (by decide)] at hassert
    rw [bind_apply_error hassert] at hexit
    cases hexit

theorem ecallCallback_ne_exit {vm t : Vm} (h : LegalLevel vm.hart.privilegeLevel) :
    ecallCallback vm ≠ .error .exit t := by
  unfold ecallCallback
  rw [bind_apply_ok (get_apply vm)]
  rcases h with hlevel | hlevel | hlevel
  · simp only [hlevel]
    exact raiseException_ne_exit (by decide)
  · simp only [hlevel]
    exact raiseException_ne_exit (by decide)
  · simp only [hlevel]
    exact raiseException_ne_exit (by decide)

theorem Legal.privilegeLegal {vm : Vm} (h : Legal vm.hart) : PrivilegeLegal vm where
  fields := h
  mret _ := mretCallback_ne_exit h.mpp
  ecall _ := ecallCallback_ne_exit h.level

/-! ## What keeps the fields legal -/

theorem Legal.same {h h' : Hart} (hh : Legal h) (hsame : SameControl h h') : Legal h' where
  level := by
    rw [hsame.privilegeLevel]
    exact hh.level
  mpp := by
    rw [hsame.status]
    exact hh.mpp

theorem closed_legal : Closed Legal where
  setReg _ _ _ hh := ⟨hh.level, hh.mpp⟩
  setPc _ _ hh := ⟨hh.level, hh.mpp⟩
  install _ side _ _ _ hh := by
    cases side with
    | itlb => exact ⟨hh.level, hh.mpp⟩
    | dtlb => exact ⟨hh.level, hh.mpp⟩

theorem eventClosed_legal : EventClosed Legal where
  refresh _ _ _ hh := ⟨hh.level, hh.mpp⟩
  returnFromMmode h _ hmpp _ := by
    have hreturn : Legal h.adjustMstatusUponMret.adjustPcUponMret := ⟨hmpp, .inl rfl⟩
    exact hreturn.same (sameControl_flushOnChange _ _)
  returnFromSmode h _ hh := by
    have hlevel : LegalLevel (h.status.spp.setWidth 2) := by
      rcases validLevel_of_bit h.status.spp with hspp | hspp
      · exact .inl hspp
      · exact .inr (.inl hspp)
    have hreturn : Legal h.adjustMstatusUponSret.adjustPcUponSret := ⟨hlevel, hh.mpp⟩
    exact hreturn.same (sameControl_flushOnChange _ _)
  flush h hh := hh.same (sameControl_flush h)
  sfenceVma _ hh := ⟨hh.level, hh.mpp⟩

theorem prefetchClosed_legal : PrefetchClosed Legal where
  commit hcommit hh := hh.same (sameControl_committed hcommit)
  count _ _ hh := ⟨hh.level, hh.mpp⟩
  jumper _ _ hh := ⟨hh.level, hh.mpp⟩
  flush h hh := hh.same (sameControl_flush h)

/-- A trap records the level it leaves, which is legal. -/
theorem leaves_legal : Leaves Legal (fun _ _ _ => True) (fun _ t => Legal t.hart) where
  stop _ _ _ hs := hs
  trap s level cause tval _ hs := by
    have htrap : Legal (if level = PRIVILEGE_LEVEL_MACHINE then s.hart.setupMmodeTrap cause tval
        else s.hart.setupSmodeTrap cause tval) := by
      split
      · exact ⟨.inr (.inr rfl), hs.level⟩
      · exact ⟨.inr (.inl rfl), hs.mpp⟩
    exact htrap.same (sameControl_flushOnChange _ _)

/-- The value an instruction would write to `mstatus` has the reserved level for `mret`. -/
def ReservedMpp (instruction : Word) (vm : Vm) : Prop :=
  csrAddress instruction = CSR_ADDRESS_MSTATUS ∧
    (combined instruction mstatusCsrEntry vm >>> 11).setWidth 2 = 2#2

/-- The mask of `mstatus` lets the two bits through. -/
theorem mpp_under_mask (value : Word) :
    ((value &&& (0x19aa : Word)) >>> 11).setWidth 2 = (value >>> 11).setWidth 2 := by
  apply BitVec.eq_of_getLsbD_eq
  intro i hi
  simp only [BitVec.getLsbD_setWidth, BitVec.getLsbD_ushiftRight, BitVec.getLsbD_and]
  interval_cases i <;> simp

/-- Of all writes only that of `mstatus` reaches the saved level. -/
theorem legal_write {address : CsrAddress} {csr : CsrEntry} {f : Word → Vm → Vm}
    (hcsr : csrEntryAt address = some csr) (hf : csr.write = some f) {value : Word}
    (hvalue : address = CSR_ADDRESS_MSTATUS → (value >>> 11).setWidth 2 ≠ 2#2) {u : Vm}
    (hu : Legal u.hart) : Legal (f (value &&& csr.wpriMask) u).hart := by
  cases csrEntryAt_kind hcsr with
  | mstatus =>
      obtain rfl := Option.some.inj hf
      refine ⟨hu.level, ?_⟩
      show LegalLevel (((value &&& (0x19aa : Word)) >>> 11).setWidth 2)
      rw [mpp_under_mask, legalLevel_iff]
      exact hvalue rfl
  | readOnly write read =>
      obtain rfl := write f hf
      exact hu
  | blob | mie | mip | mideleg | satp | sie | sip | sstatus =>
      obtain rfl := Option.some.inj hf
      exact ⟨hu.level, hu.mpp⟩

theorem wp_csr_legal {instruction : Word} {vm : Vm} (h : Legal vm.hart)
    (hspares : ¬ReservedMpp instruction vm) :
    Wp (riscvGenericCsrCallback instruction) (fun _ t => Legal t.hart)
      (fun _ t => Legal t.hart) vm := by
  refine wp_mono (riscvGenericCsrCallback_spec instruction vm) ?_ ?_
  · rintro _ t ⟨csr, hcsr, heffect⟩
    have hobserved : ∀ {u : Vm}, Observed vm u → Legal u.hart := by
      intro u hu
      rw [Observed] at hu
      rw [hu]
      exact ⟨h.level, h.mpp⟩
    cases heffect with
    | read observed => exact hobserved observed
    | write observed callback =>
        refine legal_write hcsr callback (fun haddress => ?_) (hobserved observed)
        obtain rfl : mstatusCsrEntry = csr := by
          rw [haddress] at hcsr
          exact Option.some.inj hcsr
        exact fun hreserved => hspares ⟨haddress, hreserved⟩
  · rintro e t ⟨-, rfl⟩
    exact h

/-! ## Runs -/

/-- Blocks are entered with the registers the vmm sets up. -/
def Entered (hc : HostCode) : Operation → Prop
  | .block _ _ c => Ready hc c
  | .prefetch | .pump => True

/-- A CSR instruction that writes the reserved level to `mstatus`. -/
def WritesReserved (vm : Vm) : Operation → Prop
  | .block .genericCsr param _ => ReservedMpp (param 0) vm
  | _ => False

/-- The states of the runs from power-on whose operations are all allowed where they happen. -/
inductive Reached (hc : HostCode) (allowed : Vm → Operation → Prop) : Vm → Prop
  | start {vm : Vm} (reset : SameControl initialHart vm.hart) : Reached hc allowed vm
  | step {vm : Vm} (op : Operation) (reached : Reached hc allowed vm) (entered : Entered hc op)
      (ok : allowed vm op) : Reached hc allowed (finalState (op.run hc vm))

theorem legal_of_wp {α : Type} {m : VmM α} {vm : Vm}
    (h : Wp m (fun _ t => Legal t.hart) (fun _ t => Legal t.hart) vm) :
    Legal (finalState (m vm)).hart := by
  unfold Wp at h
  cases hm : m vm with
  | ok a t =>
      rw [hm] at h
      exact h
  | error e t =>
      rw [hm] at h
      exact h

theorem wp_block_legal {hc : HostCode} {indicator : Indicator} {param : Nat → Word} {c : Cpu}
    {vm : Vm} (h : Legal vm.hart) (hready : Ready hc c)
    (hspares : ¬WritesReserved vm (.block indicator param c)) :
    Wp (runBlock hc indicator param c) (fun _ t => Legal t.hart) (fun _ t => Legal t.hart) vm := by
  by_cases hcsr : indicator = .genericCsr
  · subst hcsr
    apply runBlock_wp hready
    intro c' hready'
    apply execWp_genericCsr hready'
    refine wp_mono (wp_csr_legal h hspares) ?_ fun _ _ ht => ht
    exact fun _ t ht _ => ⟨ht.level, ht.mpp⟩
  · exact ends_runBlock_of_ne_csr closed_legal leaves_legal (fun _ _ _ _ _ => trivial)
      eventClosed_legal hc hcsr param c vm h

/-- One operation keeps the fields legal. -/
theorem legal_operation {hc : HostCode} {vm : Vm} {op : Operation} (h : Legal vm.hart)
    (hentered : Entered hc op) (hspares : ¬WritesReserved vm op) :
    Legal (finalState (op.run hc vm)).hart := by
  apply legal_of_wp
  cases op with
  | block indicator param c =>
      unfold Operation.run
      rw [wp_bind]
      exact wp_block_legal h hentered hspares
  | prefetch =>
      exact ends_prefetchInstructions closed_legal.install prefetchClosed_legal leaves_legal
        (fun _ _ => trivial) hc vm h
  | pump =>
      exact ends_pumpDevicesAndDeliverInterrupts eventClosed_legal.refresh leaves_legal
        (fun _ _ _ _ _ => trivial) vm h

/--
As long as no CSR instruction writes the reserved level to `mstatus`, the
privilege fields are legal and `mret` and `ecall` do not end the emulator.
-/
theorem privilege_legal_in_run {hc : HostCode} {vm : Vm}
    (h : Reached hc (fun s op => ¬WritesReserved s op) vm) : PrivilegeLegal vm := by
  apply Legal.privilegeLegal
  induction h with
  | start reset =>
      have hinit : Legal initialHart := ⟨.inr (.inr rfl), .inl rfl⟩
      exact hinit.same reset
  | step op _ entered ok ih => exact legal_operation ih entered ok

/-! ## A program that writes the reserved level -/

/-- `lui x1, imm` and `csrrw x0, mstatus, x1`. -/
def luiOp (imm : Word) : Operation :=
  .block .lui (fun i => [imm, 1].getD i 0) (entryCpu evenHostCode)

def csrwMstatusOp : Operation :=
  .block .genericCsr (fun _ => 0x30009073) (entryCpu evenHostCode)

def loadedVm (imm : Word) : Vm :=
  finalState ((luiOp imm).run evenHostCode resetVm)

/-- The machine after the two instructions. -/
def writtenVm (imm : Word) : Vm :=
  finalState (csrwMstatusOp.run evenHostCode (loadedVm imm))

theorem reached_writtenVm {allowed : Vm → Operation → Prop} {imm : Word}
    (hlui : allowed resetVm (luiOp imm)) (hcsr : allowed (loadedVm imm) csrwMstatusOp) :
    Reached evenHostCode allowed (writtenVm imm) :=
  .step csrwMstatusOp (.step (luiOp imm) (.start ⟨rfl, rfl, rfl, rfl, rfl, rfl⟩)
    (ready_entryCpu evenHostCode) hlui) (ready_entryCpu evenHostCode) hcsr

/-- After `lui x1, 2` the saved level is user. -/
theorem privilege_legal_after_write :
    (loadedVm 2).hart.registers 1 = 0x2000 ∧ PrivilegeLegal (writtenVm 2) := by
  have hoperand : (loadedVm 2).hart.registers 1 = 0x2000 := by decide +kernel
  have hcombined : combined 0x30009073 mstatusCsrEntry (loadedVm 2) = 0x2000 := by decide +kernel
  have hspares : ¬ReservedMpp 0x30009073 (loadedVm 2) := by
    rintro ⟨-, hreserved⟩
    rw [hcombined] at hreserved
    revert hreserved
    decide
  refine ⟨hoperand, ?_⟩
  apply @privilege_legal_in_run evenHostCode
  exact reached_writtenVm (fun h => h) hspares

/-- After `lui x1, 1` it is the reserved one, and `mret` ends the emulator. -/
theorem reserved_level_reached :
    Reached evenHostCode (fun _ _ => True) (writtenVm 1) ∧
      (writtenVm 1).hart.status.mpp = 2 ∧
      (∃ t, mretCallback (writtenVm 1) = .error .exit t) ∧ ¬PrivilegeLegal (writtenVm 1) := by
  have hmpp : (writtenVm 1).hart.status.mpp = 2 := by decide +kernel
  have hexit : abortOf (mretCallback (writtenVm 1)) = some .exit := by decide +kernel
  refine ⟨reached_writtenVm trivial trivial, hmpp, ⟨_, eq_error_of_abortOf hexit⟩, ?_⟩
  intro hlegal
  exact (legalLevel_iff _).mp hlegal.fields.mpp hmpp

end Zelda.Proofs.PrivilegeLevels
