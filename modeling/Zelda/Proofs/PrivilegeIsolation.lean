import Zelda.Proofs.PrivilegeLevels
/-!
# Isolation of the CSR file

Bits 9:8 of a CSR address name the lowest level that may use the register.
The callback of the CSR instructions does not look at them, so an instruction
that names a register above its level goes through; every other instruction
below machine mode keeps what the levels above it own.
-/

namespace Zelda.Proofs.PrivilegeIsolation

open Zelda.Vmm
open Zelda.Lib.Effect
open Zelda.Lib.X86
open Zelda.Proofs.Frames
open Zelda.Proofs.Callees
open Zelda.Proofs.Runs
open Zelda.Proofs.Templates
open Zelda.Proofs.MemoryTemplates
open Zelda.Proofs.CsrAccess
open Zelda.Proofs.CsrViews
open Zelda.Proofs.CsrInstructions

/-! ## What each level owns -/

/-- The lowest level that may use a register. -/
def csrLevel (address : CsrAddress) : BitVec 2 :=
  (address >>> 8).setWidth 2

/-- A word of the SYSTEM opcode with one of the six forms. -/
structure CsrInstruction (instruction : Word) : Prop where
  opcode : opcodeOf instruction = RISCV_OPCODE_SUPERVISOR_LEVEL
  form : (fields instruction).funct3 ∈ csrForms

/-- A CSR instruction at `level` on a register of a higher one. -/
def NamesHigher (level : BitVec 2) (instruction : Word) : Prop :=
  CsrInstruction instruction ∧ level < csrLevel (csrAddress instruction)

/-- The machine registers that are kept in their blob. -/
def machineBlobs : List CsrAddress :=
  [CSR_ADDRESS_MTVEC, CSR_ADDRESS_MEPC, CSR_ADDRESS_MCAUSE, CSR_ADDRESS_MTVAL,
    CSR_ADDRESS_MSCRATCH, CSR_ADDRESS_MEDELEG] ++
  (List.finRange 16).map (fun idx : Fin 16 => 0x3b0 + BitVec.ofNat 12 idx.val) ++
  (List.finRange 4).map (fun idx : Fin 4 => 0x3a0 + BitVec.ofNat 12 idx.val)

/-- The supervisor registers that are kept in their blob. -/
def supervisorBlobs : List CsrAddress :=
  [CSR_ADDRESS_SATP, CSR_ADDRESS_STVEC, CSR_ADDRESS_SEPC, CSR_ADDRESS_SCAUSE, CSR_ADDRESS_STVAL,
    CSR_ADDRESS_SSCRATCH]

/-- The machine's interrupts in `mie` and `mip`. -/
def machineInterrupts : Word := 0x888

/-- The interrupts shown in `sie` and `sip`. -/
def supervisorInterrupts : Word := 0x222

/-- What machine mode owns is the same. -/
structure MachineKept (h h' : Hart) : Prop where
  mie : h'.status.mie = h.status.mie
  mpie : h'.status.mpie = h.status.mpie
  mpp : h'.status.mpp = h.status.mpp
  blobs : ∀ address ∈ machineBlobs, h'.csrBlob address = h.csrBlob address
  idelegation : h'.idelegation = h.idelegation
  ienable : h'.ienable &&& machineInterrupts = h.ienable &&& machineInterrupts
  ipending : h'.ipending &&& machineInterrupts = h.ipending &&& machineInterrupts

/-- What supervisor mode owns is the same. -/
structure SupervisorKept (h h' : Hart) : Prop where
  sstatus : sstatusWord h'.status = sstatusWord h.status
  blobs : ∀ address ∈ supervisorBlobs, h'.csrBlob address = h.csrBlob address
  ienable : h'.ienable &&& supervisorInterrupts = h.ienable &&& supervisorInterrupts
  ipending : h'.ipending &&& supervisorInterrupts = h.ipending &&& supervisorInterrupts

/--
An instruction at `level`, on every machine: a CSR access above the level does
nothing but raise the illegal instruction exception, and an instruction that
completes keeps what the levels above it own.
-/
structure Isolated (level : BitVec 2) (indicator : Indicator) (param : Nat → Word) : Prop where
  refused : ∀ vm : Vm, vm.hart.privilegeLevel = level → indicator = .genericCsr →
    NamesHigher level (param 0) →
    riscvGenericCsrCallback (param 0) vm = raiseException EXCEPTION_ILLEEGAL_INSTRUCTION vm
  kept : ∀ (hc : HostCode) (c : Cpu) (vm t : Vm) (ended : End × Cpu), Ready hc c →
    vm.hart.privilegeLevel = level → runBlock hc indicator param c vm = .ok ended t →
    MachineKept vm.hart t.hart ∧
      (level = PRIVILEGE_LEVEL_USER → SupervisorKept vm.hart t.hart)

/-! ## What an instruction keeps -/

theorem MachineKept.same {h₀ h h' : Hart} (hh : MachineKept h₀ h) (hsame : SameControl h h') :
    MachineKept h₀ h' where
  mie := by rw [hsame.status, hh.mie]
  mpie := by rw [hsame.status, hh.mpie]
  mpp := by rw [hsame.status, hh.mpp]
  blobs address haddress := by rw [hsame.csrBlob, hh.blobs address haddress]
  idelegation := by rw [hsame.idelegation, hh.idelegation]
  ienable := by rw [hsame.ienable, hh.ienable]
  ipending := by rw [hsame.ipending, hh.ipending]

theorem SupervisorKept.same {h₀ h h' : Hart} (hh : SupervisorKept h₀ h)
    (hsame : SameControl h h') : SupervisorKept h₀ h' where
  sstatus := by rw [hsame.status, hh.sstatus]
  blobs address haddress := by rw [hsame.csrBlob, hh.blobs address haddress]
  ienable := by rw [hsame.ienable, hh.ienable]
  ipending := by rw [hsame.ipending, hh.ipending]

/-- Below machine mode, with everything above `level` as it was in `h₀`. -/
structure Held (level : BitVec 2) (h₀ h : Hart) : Prop where
  below : h.privilegeLevel ≠ PRIVILEGE_LEVEL_MACHINE
  machine : MachineKept h₀ h
  /-- The level of a user stays, since only a supervisor returns. -/
  user : level = PRIVILEGE_LEVEL_USER →
    h.privilegeLevel = PRIVILEGE_LEVEL_USER ∧ SupervisorKept h₀ h

section Held

variable {level : BitVec 2} {h₀ h h' : Hart}

theorem Held.same (hh : Held level h₀ h) (hsame : SameControl h h') : Held level h₀ h' where
  below := by
    rw [hsame.privilegeLevel]
    exact hh.below
  machine := hh.machine.same hsame
  user hlevel := by
    rw [hsame.privilegeLevel]
    exact ⟨(hh.user hlevel).1, (hh.user hlevel).2.same hsame⟩

theorem closed_held : Closed (Held level h₀) where
  setReg _ _ _ hh := hh.same ⟨rfl, rfl, rfl, rfl, rfl, rfl⟩
  setPc _ _ hh := hh.same ⟨rfl, rfl, rfl, rfl, rfl, rfl⟩
  install _ side _ _ _ hh := by
    cases side with
    | itlb => exact hh.same ⟨rfl, rfl, rfl, rfl, rfl, rfl⟩
    | dtlb => exact hh.same ⟨rfl, rfl, rfl, rfl, rfl, rfl⟩

theorem returnClosed_held : ReturnClosed (Held level h₀) where
  returnFromMmode _ hmachine _ hh := absurd hmachine hh.below
  returnFromSmode h hsupervisor hh := by
    obtain ⟨-, ⟨hmie, hmpie, hmpp, hblobs, hdelegation, henable, hpending⟩, huser⟩ := hh
    have hspp : ∀ spp : BitVec 1, spp.setWidth 2 ≠ PRIVILEGE_LEVEL_MACHINE := by decide
    have hreturn : Held level h₀ h.adjustMstatusUponSret.adjustPcUponSret := by
      refine ⟨hspp _, ⟨hmie, hmpie, hmpp, hblobs, hdelegation, henable, hpending⟩, ?_⟩
      intro hlevel
      rw [(huser hlevel).1] at hsupervisor
      exact absurd hsupervisor (by decide)
    exact hreturn.same (sameControl_flushOnChange _ _)
  flush h hh := hh.same (sameControl_flush h)
  sfenceVma _ hh := hh.same ⟨rfl, rfl, rfl, rfl, rfl, rfl⟩

theorem leaves_held : Leaves (Held level h₀) (fun _ _ _ => True) (fun _ _ => True) where
  stop _ _ _ _ := True.intro
  trap _ _ _ _ _ _ := True.intro

/-- Copying a bit outside a mask does not show under it. -/
theorem copyBit_and {n : Nat} {mask : Word} (hmask : mask.getLsbD n = false) (hn : n < 32)
    (blob value : Word) : copyBit blob value n &&& mask = blob &&& mask := by
  apply BitVec.eq_of_getLsbD_eq
  intro i hi
  rw [BitVec.getLsbD_and, BitVec.getLsbD_and, getLsbD_copyBit _ _ hn hi]
  by_cases hin : i = n
  · rw [hin, hmask, Bool.and_false, Bool.and_false]
  · rw [if_neg hin]

theorem csrLevel_machineBlobs : ∀ address ∈ machineBlobs, csrLevel address = 3 := by
  -- evaluated along the list, which is shorter than the address space
  have hall : machineBlobs.Forall fun address => csrLevel address = 3 := by decide +kernel
  exact List.forall_iff_forall_mem.mp hall

theorem csrLevel_supervisorBlobs : ∀ address ∈ supervisorBlobs, csrLevel address = 1 := by
  have hall : supervisorBlobs.Forall fun address => csrLevel address = 1 := by decide
  exact List.forall_iff_forall_mem.mp hall

/-- A write to a register of its own level reaches nothing above. -/
theorem held_write {address : CsrAddress} {csr : CsrEntry} {f : Word → Vm → Vm}
    (hcsr : csrEntryAt address = some csr) (hf : csr.write = some f)
    (hbelow : level = PRIVILEGE_LEVEL_USER ∨ level = PRIVILEGE_LEVEL_SUPERVISOR)
    (hlevel : csrLevel address ≤ level) {value : Word} {u : Vm} (hu : Held level h₀ u.hart) :
    Held level h₀ (f value u).hart := by
  obtain ⟨hmode, ⟨hmie, hmpie, hmpp, hblobs, hdelegation, henable, hpending⟩, huser⟩ := hu
  have hmachine : csrLevel address ≠ 3 := by
    intro hthree
    rw [hthree] at hlevel
    rcases hbelow with rfl | rfl
    · exact absurd hlevel (by decide)
    · exact absurd hlevel (by decide)
  have hsupervisor : csrLevel address = 1 → level ≠ PRIVILEGE_LEVEL_USER := by
    rintro hone rfl
    rw [hone] at hlevel
    exact absurd hlevel (by decide)
  cases csrEntryAt_kind hcsr with
  | blob mask ne_satp =>
      obtain rfl := Option.some.inj hf
      refine ⟨hmode, ⟨hmie, hmpie, hmpp, ?_, hdelegation, henable, hpending⟩, ?_⟩
      · intro a ha
        have hne : a ≠ address := by
          rintro rfl
          exact hmachine (csrLevel_machineBlobs a ha)
        exact (Function.update_of_ne hne ..).trans (hblobs a ha)
      · intro hu
        obtain ⟨hmode, ⟨hsstatus, hsblobs, hsenable, hspending⟩⟩ := huser hu
        refine ⟨hmode, ⟨hsstatus, ?_, hsenable, hspending⟩⟩
        intro a ha
        have hne : a ≠ address := by
          rintro rfl
          exact hsupervisor (csrLevel_supervisorBlobs a ha) hu
        exact (Function.update_of_ne hne ..).trans (hsblobs a ha)
  | readOnly write read =>
      obtain rfl := write f hf
      exact ⟨hmode, ⟨hmie, hmpie, hmpp, hblobs, hdelegation, henable, hpending⟩, huser⟩
  | mie | mip | mideleg | mstatus => exact absurd rfl hmachine
  | satp =>
      obtain rfl := Option.some.inj hf
      refine ⟨hmode, ⟨hmie, hmpie, hmpp, ?_, hdelegation, henable, hpending⟩, ?_⟩
      · intro a ha
        have hne : a ≠ CSR_ADDRESS_SATP := by
          rintro rfl
          exact hmachine (csrLevel_machineBlobs _ ha)
        exact (Function.update_of_ne hne ..).trans (hblobs a ha)
      · exact fun hu => absurd hu (hsupervisor rfl)
  | sie =>
      obtain rfl := Option.some.inj hf
      refine ⟨hmode, ⟨hmie, hmpie, hmpp, hblobs, hdelegation, ?_, hpending⟩, ?_⟩
      · change copyBit (copyBit (copyBit u.hart.ienable value 1) value 5) value 9 &&& _ = _
        rw [copyBit_and (by decide) (by decide), copyBit_and (by decide) (by decide),
          copyBit_and (by decide) (by decide)]
        exact henable
      · exact fun hu => absurd hu (hsupervisor rfl)
  | sip =>
      obtain rfl := Option.some.inj hf
      refine ⟨hmode, ⟨hmie, hmpie, hmpp, hblobs, hdelegation, henable, ?_⟩, ?_⟩
      · change copyBit u.hart.ipending value 1 &&& _ = _
        rw [copyBit_and (by decide) (by decide)]
        exact hpending
      · exact fun hu => absurd hu (hsupervisor rfl)
  | sstatus =>
      obtain rfl := Option.some.inj hf
      refine ⟨hmode, ⟨hmie, hmpie, hmpp, hblobs, hdelegation, henable, hpending⟩, ?_⟩
      exact fun hu => absurd hu (hsupervisor rfl)

end Held

/-! ## CSR instructions -/

section Csr

variable {level : BitVec 2} {instruction : Word}

/-- The callback only completes on the six forms. -/
theorem csrInstruction_of_ok {vm t : Vm} (h : riscvGenericCsrCallback instruction vm = .ok () t) :
    CsrInstruction instruction := by
  have hspec : Wp (riscvGenericCsrCallback instruction)
      (fun _ _ => CsrInstruction instruction) (fun _ _ => True) vm := by
    unfold riscvGenericCsrCallback
    rw [wp_bind]
    unfold assert
    split
    swap
    · exact True.intro
    rename_i hopcode
    have hready : ∀ {α : Type} {m : VmM α} {s : Vm}, (fields instruction).funct3 ∈ csrForms →
        Wp m (fun _ _ => CsrInstruction instruction) (fun _ _ => True) s := by
      intro α m s hform
      unfold Wp
      split
      · exact ⟨beq_iff_eq.mp hopcode, hform⟩
      · exact True.intro
    rw [wp_pure]
    simp only
    split
    · exact True.intro
    rw [wp_bind, wp_get]
    split
    case h_7 => exact True.intro
    all_goals
      rename_i hform
      apply hready
      rw [hform]
      decide
  rw [wp_of_ok h] at hspec
  exact hspec

/-- A CSR instruction never traps, whatever it names. -/
theorem not_refused (vm : Vm) :
    riscvGenericCsrCallback instruction vm ≠
      raiseException EXCEPTION_ILLEEGAL_INSTRUCTION vm := by
  intro hrefused
  rw [raiseException, raiseExceptionWithTvalue_apply 0 vm (by decide)] at hrefused
  have hspec := riscvGenericCsrCallback_spec instruction vm
  rw [wp_of_error hrefused] at hspec
  exact hspec.1 rfl

/-- A CSR instruction on a register of its own level keeps what is above. -/
theorem wp_csr_held
    (hbelow : level = PRIVILEGE_LEVEL_USER ∨ level = PRIVILEGE_LEVEL_SUPERVISOR)
    (hnames : ¬NamesHigher level instruction) {h₀ : Hart} {vm : Vm} (h : Held level h₀ vm.hart) :
    Wp (riscvGenericCsrCallback instruction) (fun _ t => Held level h₀ t.hart)
      (fun _ _ => True) vm := by
  have hspec := riscvGenericCsrCallback_spec instruction vm
  cases hrun : riscvGenericCsrCallback instruction vm with
  | error e t =>
      rw [wp_of_error hrun]
      exact True.intro
  | ok _ t =>
      rw [wp_of_ok hrun] at hspec ⊢
      obtain ⟨csr, hcsr, heffect⟩ := hspec
      have hlevel : csrLevel (csrAddress instruction) ≤ level := by
        apply BitVec.not_lt.mp
        exact fun hlt => hnames ⟨csrInstruction_of_ok hrun, hlt⟩
      have hobserved : ∀ {u : Vm}, Observed vm u → Held level h₀ u.hart := by
        intro u hu
        rw [Observed] at hu
        rw [hu]
        exact h.same ⟨rfl, rfl, rfl, rfl, rfl, rfl⟩
      cases heffect with
      | read observed => exact hobserved observed
      | write observed callback => exact held_write hcsr callback hbelow hlevel (hobserved observed)

end Csr

/-! ## Waiting -/

/-- A machine at `level` whose timer has expired without the hart having seen it. -/
def expiredVm (level : BitVec 2) : Vm :=
  { resetVm with
    hart := { resetVm.hart with privilegeLevel := level, ienable := 0x80 }
    clint := { resetVm.clint with mtimecmp := fun _ => 0 } }

theorem execWp_wfi {hc : HostCode} {param : Nat → Word} {c : Cpu} {vm : Vm}
    {Q : End × Cpu → Vm → Prop} {E : Abort → Vm → Prop} (hready : Ready hc c)
    (h : Wp wfiCallback
      (fun _ t => ∀ c', Q (.toMonitor, c') { t with hart := proceeded t.hart }) E vm) :
    ExecWp (hostEnv hc) param (templateBody .wfi) c Q E vm := by
  have hbody : templateBody .wfi =
      callOnHart .wfiCallback ++ (proceedToNextInstruction ++ trapToVmm) := rfl
  rw [hbody]
  apply execWp_callOnHart hready rfl
  refine wp_mono h ?_ fun _ _ he => he
  intro _ t ht c' hready'
  rw [execWp_proceedToNextInstruction hready', trapToVmm, execWp_jmpMonitor]
  exact ht _

/-- `wfi` shows the hart the line of the timer. -/
theorem wfi_shows_timer {level : BitVec 2} (param : Nat → Word)
    (hbelow : level = PRIVILEGE_LEVEL_USER ∨ level = PRIVILEGE_LEVEL_SUPERVISOR) :
    ∃ ended t, runBlock evenHostCode .wfi param (entryCpu evenHostCode) (expiredVm level) =
      .ok ended t ∧ t.hart.ipending = 0x80 := by
  have hidle : ∃ t, wfiCallback (expiredVm level) = .ok () t ∧ t.hart.ipending = 0x80 := by
    have hok : isOk (wfiCallback (expiredVm level)) = true := by
      rcases hbelow with rfl | rfl <;> decide +kernel
    have hpending : (finalState (wfiCallback (expiredVm level))).hart.ipending = 0x80 := by
      rcases hbelow with rfl | rfl <;> decide +kernel
    obtain ⟨_, hrun⟩ := eq_ok_of_isOk hok
    exact ⟨_, hrun, hpending⟩
  obtain ⟨u, hrun, hpending⟩ := hidle
  have hwp : Wp (runBlock evenHostCode .wfi param (entryCpu evenHostCode))
      (fun _ t => t.hart.ipending = 0x80) (fun _ _ => False) (expiredVm level) := by
    apply runBlock_wp (ready_entryCpu evenHostCode)
    intro c hready
    apply execWp_wfi hready
    rw [wp_of_ok hrun]
    exact fun _ => hpending
  unfold Wp at hwp
  cases hblock : runBlock evenHostCode .wfi param (entryCpu evenHostCode) (expiredVm level) with
  | error e t =>
      rw [hblock] at hwp
      exact hwp.elim
  | ok ended t =>
      rw [hblock] at hwp
      exact ⟨ended, t, rfl, hwp⟩

/-! ## Isolation -/

section Isolation

variable {level : BitVec 2} {indicator : Indicator} {param : Nat → Word}

theorem kept_of_allowed
    (hbelow : level = PRIVILEGE_LEVEL_USER ∨ level = PRIVILEGE_LEVEL_SUPERVISOR)
    (hnames : indicator = .genericCsr → ¬NamesHigher level (param 0)) (hwfi : indicator ≠ .wfi)
    {hc : HostCode} {c : Cpu} (hready : Ready hc c) {vm : Vm}
    (hlevel : vm.hart.privilegeLevel = level) :
    Wp (runBlock hc indicator param c) (fun _ t => Held level vm.hart t.hart)
      (fun _ _ => True) vm := by
  have hstart : Held level vm.hart vm.hart := by
    refine ⟨?_, ⟨rfl, rfl, rfl, fun _ _ => rfl, rfl, rfl, rfl⟩, ?_⟩
    · rw [hlevel]
      rcases hbelow with rfl | rfl <;> decide
    · exact fun huser => ⟨hlevel.trans huser, rfl, fun _ _ => rfl, rfl, rfl⟩
  by_cases hcsr : indicator = .genericCsr
  · subst hcsr
    apply runBlock_wp hready
    intro c' hready'
    apply execWp_genericCsr hready'
    refine wp_mono (wp_csr_held hbelow (hnames rfl) hstart) ?_ fun _ _ h => h
    exact fun _ t ht _ => ht.same ⟨rfl, rfl, rfl, rfl, rfl, rfl⟩
  · exact ends_runBlock_of_quiet closed_held leaves_held (fun _ _ _ _ _ => True.intro)
      returnClosed_held hc hcsr hwfi param c vm hstart

/--
Below machine mode an instruction is isolated exactly when it is no CSR
instruction on a register of a higher level and no `wfi`, which lets the
devices drive the pending bits while it waits.
-/
theorem isolated_iff
    (hbelow : level = PRIVILEGE_LEVEL_USER ∨ level = PRIVILEGE_LEVEL_SUPERVISOR) :
    Isolated level indicator param ↔
      (indicator = .genericCsr → ¬NamesHigher level (param 0)) ∧ indicator ≠ .wfi := by
  constructor
  · intro h
    constructor
    · intro hcsr hnames
      exact not_refused _ (h.refused (expiredVm level) rfl hcsr hnames)
    · rintro rfl
      obtain ⟨ended, t, hrun, hpending⟩ := wfi_shows_timer param hbelow
      have hkept := (h.kept evenHostCode _ _ t ended (ready_entryCpu _) rfl hrun).1.ipending
      rw [hpending] at hkept
      change (0x80 : Word) &&& machineInterrupts = 0 &&& machineInterrupts at hkept
      exact absurd hkept (by decide)
  · rintro ⟨hnames, hwfi⟩
    refine ⟨fun vm _ hcsr hhigher => absurd hhigher (hnames hcsr), ?_⟩
    intro hc c vm t ended hready hlevel hrun
    have hheld := kept_of_allowed hbelow hnames hwfi hready hlevel
    rw [wp_of_ok hrun] at hheld
    exact ⟨hheld.machine, fun huser => (hheld.user huser).2⟩

end Isolation

/-- In supervisor mode `csrrw x0, satp, x1` keeps what machine mode owns. -/
theorem isolated_satp_write :
    Isolated PRIVILEGE_LEVEL_SUPERVISOR .genericCsr (fun _ => 0x18009073) := by
  have hnames : ¬NamesHigher PRIVILEGE_LEVEL_SUPERVISOR 0x18009073 := by
    rintro ⟨-, hlt⟩
    revert hlt
    decide
  exact (isolated_iff (.inr rfl)).mpr ⟨fun _ => hnames, by decide⟩

/-- A user whose `x1` holds the address of a page of its own. -/
def userVm : Vm :=
  { resetVm with
    hart := { resetVm.hart with
      privilegeLevel := PRIVILEGE_LEVEL_USER
      registers := fun index => if index = 1 then 0x80001000 else 0 } }

/-- The user moves the machine trap vector there by `csrrw x0, mtvec, x1`. -/
theorem user_writes_mtvec :
    (∃ t, riscvGenericCsrCallback 0x30509073 userVm = .ok () t ∧
      userVm.hart.csrBlob CSR_ADDRESS_MTVEC = 0 ∧
      t.hart.csrBlob CSR_ADDRESS_MTVEC = 0x80001000) ∧
    ¬∀ (level : BitVec 2) (indicator : Indicator) (param : Nat → Word),
      level = PRIVILEGE_LEVEL_USER ∨ level = PRIVILEGE_LEVEL_SUPERVISOR →
        Isolated level indicator param := by
  constructor
  · have hok : isOk (riscvGenericCsrCallback 0x30509073 userVm) = true := by decide +kernel
    have hmtvec : (finalState (riscvGenericCsrCallback 0x30509073 userVm)).hart.csrBlob
        CSR_ADDRESS_MTVEC = 0x80001000 := by
      decide +kernel
    obtain ⟨_, hrun⟩ := eq_ok_of_isOk hok
    exact ⟨_, hrun, by decide +kernel, hmtvec⟩
  · intro h
    have hisolated := h PRIVILEGE_LEVEL_USER .genericCsr (fun _ => 0x30509073) (.inl rfl)
    have hnames : NamesHigher PRIVILEGE_LEVEL_USER 0x30509073 :=
      ⟨⟨by decide, by decide⟩, by decide⟩
    exact not_refused _ (hisolated.refused userVm rfl rfl hnames)

end Zelda.Proofs.PrivilegeIsolation
