import Zelda.Proofs.CsrInstructions
import Zelda.Proofs.MulDiv
import Zelda.Proofs.TrapNesting
import Zelda.Proofs.ZeroRegister
/-!
# Alignment of the pc

Instructions that go on and traps keep the pc a multiple of four.  Jumps,
taken branches and returns put it where they are told to, and nothing checks
that: an instruction-address-misaligned exception is never raised.
-/

namespace Zelda.Proofs.AlignedPc

open Zelda.Isa
open Zelda.Vmm
open Zelda.Lib.Effect
open Zelda.Lib.X86
open Zelda.Proofs.Callees
open Zelda.Proofs.Decode
open Zelda.Proofs.Frames
open Zelda.Proofs.Instructions
open Zelda.Proofs.MemoryTemplates
open Zelda.Proofs.MulDiv
open Zelda.Proofs.Prefetch
open Zelda.Proofs.Runs
open Zelda.Proofs.Templates

/-- A multiple of four. -/
def Aligned (pc : Word) : Prop :=
  pc.toNat % 4 = 0

instance (pc : Word) : Decidable (Aligned pc) :=
  inferInstanceAs (Decidable (pc.toNat % 4 = 0))

theorem aligned_add_four {pc : Word} (h : Aligned pc) : Aligned (pc + 4) := by
  unfold Aligned at h ⊢
  rw [BitVec.toNat_add]
  show (pc.toNat + 4) % 2 ^ 32 % 4 = 0
  omega

/-! ## Traps -/

theorem aligned_masked (tvec : Word) : Aligned (tvec &&& ~~~3#32) := by
  have hmask : (tvec &&& ~~~3#32) &&& 3#32 = 0#32 := by
    rw [BitVec.and_assoc]
    exact BitVec.and_zero
  have hmod : ((tvec &&& ~~~3#32) &&& 3#32).toNat = (tvec &&& ~~~3#32).toNat % 4 := by
    rw [BitVec.toNat_and]
    exact Nat.and_two_pow_sub_one_eq_mod _ 2
  rw [hmask] at hmod
  exact hmod.symm

/-- A trap vector is aligned whatever is written to the register. -/
theorem aligned_trapVector (tvec cause : Word) : Aligned (Hart.trapVector tvec cause) := by
  have hbase := aligned_masked tvec
  unfold Hart.trapVector
  split
  · exact hbase
  · unfold Aligned at hbase ⊢
    rw [BitVec.toNat_add, BitVec.toNat_mul]
    show ((tvec &&& ~~~3#32).toNat + (cause &&& 0x7fffffff).toNat * 4 % 2 ^ 32) % 2 ^ 32 % 4 = 0
    omega

theorem aligned_takeTrap (h : Hart) (level : BitVec 2) (cause tval : Word) :
    Aligned (h.takeTrap level cause tval).pc := by
  unfold Hart.takeTrap
  rw [flushOnChange_frame]
  split
  · exact aligned_trapVector _ _
  · exact aligned_trapVector _ _

/-- Where control leaves vmm code for a trap handler, the pc is aligned. -/
def AlignedTrap (e : Abort) (t : Vm) : Prop :=
  e = .trap → Aligned t.hart.pc

theorem leaves_aligned (I : Hart → Prop) : Leaves I (fun _ _ _ => True) AlignedTrap where
  stop _ _ hne _ htrap := absurd htrap hne
  trap s level cause tval _ _ _ := aligned_takeTrap s.hart level cause tval

theorem blockCauses_true (I : Hart → Prop) : BlockCauses I fun _ _ _ => True :=
  fun _ _ _ _ _ => True.intro

/-! ## What leaves the pc alone -/

/-- The pc is still `pc`. -/
def PcIs (pc : Word) (h : Hart) : Prop :=
  h.pc = pc

section PcIs

variable (pc : Word)

theorem fillClosed_pcIs : FillClosed (PcIs pc) := by
  intro vm side va entry _ hh
  cases side with
  | itlb => exact hh
  | dtlb => exact hh

theorem refreshClosed_pcIs : RefreshClosed (PcIs pc) :=
  fun _ _ _ hh => hh

theorem setRegClosed_pcIs : SetRegClosed (PcIs pc) :=
  fun _ _ _ hh => hh

theorem csrClosed_pcIs : CsrClosed (PcIs pc) where
  interrupts _ _ _ _ hh := hh
  setStatus _ _ hh := hh
  setCsrBlob _ _ _ _ hh := hh
  writeSatp _ _ hh := hh

theorem prefetchClosed_pcIs : PrefetchClosed (PcIs pc) where
  commit hcommit hh := by
    obtain ⟨added, item, hadd, -, rfl⟩ := hcommit
    obtain ⟨-, -, rfl⟩ := addTranslationItem_eq hadd
    rw [writeParams_frame]
    exact hh
  count _ _ hh := hh
  jumper _ _ hh := hh
  flush _ hh := hh

theorem ends_vmread_pcIs (va : Word) (size : AccessSize) :
    Ends (OnHart (PcIs pc)) AlignedTrap (vmread va size) :=
  ends_vmread (fillClosed_pcIs pc) (leaves_aligned _) (blockCauses_true _) va size

theorem ends_vmwrite_pcIs (va : Word) (size : AccessSize) (value : DWord) :
    Ends (OnHart (PcIs pc)) AlignedTrap (vmwrite va size value) :=
  ends_vmwrite (fillClosed_pcIs pc) (leaves_aligned _) (blockCauses_true _) va size value

theorem ends_amo_pcIs (rs1 rs2 rd : RegIndex) (funct5 : Word) :
    Ends (OnHart (PcIs pc)) AlignedTrap (amoInstructionSlowpath rs1 rs2 rd funct5) :=
  ends_amoInstructionSlowpath (fillClosed_pcIs pc) (setRegClosed_pcIs pc) (leaves_aligned _)
    (blockCauses_true _) rs1 rs2 rd funct5

theorem ends_csr_pcIs (instruction : Word) :
    Ends (OnHart (PcIs pc)) AlignedTrap (riscvGenericCsrCallback instruction) := by
  intro vm hvm
  refine wp_mono (CsrAccess.riscvGenericCsrCallback_spec instruction vm) ?_ ?_
  · rintro _ t ⟨csr, hcsr, heffect⟩
    cases heffect with
    | read observed =>
        rw [OnHart, observed]
        exact hvm
    | @write u f observed callback =>
        have hu : PcIs pc u.hart := by
          rw [observed]
          exact hvm
        exact (csrClosed_pcIs pc).csrWrite u _ hcsr callback hu
  · exact fun e t hnot htrap => absurd htrap hnot.1

end PcIs

/-! ## Where an instruction goes -/

/-- The target of a branch, if it is taken. -/
def branchTarget (word address : Word) (h : Hart) (op : BranchOp) : Option Word :=
  let dec := instructionDecodingPerType word .B
  if op.taken (h.registers dec.rs1Index) (h.registers dec.rs2Index) then
    some (address + signExtend32 (dec.imm <<< 1) 12)
  else
    none

/-- Where the block of `word`, translated at `address`, sends the pc other than on. -/
def jumpTarget (word address : Word) (h : Hart) : Indicator → Option Word
  | .jal =>
      let dec := instructionDecodingPerType word .UJ
      some (address + signExtend32 (dec.imm <<< 1) 20)
  | .jalr =>
      let dec := instructionDecodingPerType word .I
      some ((h.registers dec.rs1Index + signExtend32 dec.imm 11) &&& ~~~1#32)
  | .beq => branchTarget word address h .beq
  | .bne => branchTarget word address h .bne
  | .blt => branchTarget word address h .blt
  | .bge => branchTarget word address h .bge
  | .bltu => branchTarget word address h .bltu
  | .bgeu => branchTarget word address h .bgeu
  | .mret =>
      if h.privilegeLevel = PRIVILEGE_LEVEL_MACHINE ∧ h.status.mpp ≠ 2 then
        some (h.csrBlob CSR_ADDRESS_MEPC)
      else
        none
  | .sret =>
      if h.privilegeLevel = PRIVILEGE_LEVEL_SUPERVISOR then some (h.csrBlob CSR_ADDRESS_SEPC)
      else none
  | _ => none

/-- The instruction does not jump, or to a multiple of four. -/
def LandsAligned (word address : Word) (indicator : Indicator) (h : Hart) : Prop :=
  ∀ target, jumpTarget word address h indicator = some target → Aligned target

section Blocks

variable {hc : HostCode} {param : Nat → Word} {c : Cpu} {vm : Vm} {rs1 rs2 rd : RegIndex}

/-- The block leaves the pc at `next`, or traps to an aligned vector. -/
abbrev BodyLands (hc : HostCode) (param : Nat → Word) (code : Code) (c : Cpu) (vm : Vm)
    (next : Word) : Prop :=
  ExecWp (hostEnv hc) param code c (fun _ t => t.hart.pc = next) AlignedTrap vm

theorem lands_of_runsTo {code : Code} {h : Hart} (hrun : RunsTo hc param code c vm h) :
    BodyLands hc param code c vm h.pc :=
  execWp_of_runsTo hrun fun _ => rfl

/-- A block that goes on after a callee that leaves the pc alone. -/
theorem pc_next {t : Vm} (ht : OnHart (PcIs vm.hart.pc) t) : t.hart.pc + 4 = vm.hart.pc + 4 := by
  rw [show t.hart.pc = vm.hart.pc from ht]

variable (hready : Ready hc c)
include hready

theorem lands_register {indicator : Indicator} (hmem : indicator ∈ registerIndicators)
    (h0 : param 0 = indexParam rs1) (h1 : param 1 = indexParam rs2) (h2 : param 2 = indexParam rd)
    (word address : Word) :
    BodyLands hc param (templateBody indicator) c vm
      ((jumpTarget word address vm.hart indicator).getD (vm.hart.pc + 4)) := by
  have hmulDiv : ∀ op,
      BodyLands hc param (templateBody (mulDivIndicator op)) c vm (vm.hart.pc + 4) := by
    intro op
    have hparams : ParamsOf param (mulDivEmitted op rd rs1 rs2) := by
      intro j w hw
      match j with
      | 0 => exact h0.trans (Option.some.inj hw)
      | 1 => exact h1.trans (Option.some.inj hw)
      | 2 => exact h2.trans (Option.some.inj hw)
    apply execWp_mulDiv op hready hparams
    · exact fun _ _ => rfl
    · intro _ htrap
      cases htrap
  simp only [registerIndicators, List.mem_cons, List.not_mem_nil, or_false] at hmem
  rcases hmem with rfl | rfl | rfl | rfl | rfl | rfl | rfl | rfl | rfl | rfl | rfl | rfl | rfl |
    rfl | rfl | rfl | rfl | rfl
  · exact lands_of_runsTo (runsTo_commutativeOp hready h0 h1 h2 .add)
  · exact lands_of_runsTo (runsTo_sub hready h0 h1 h2)
  · exact lands_of_runsTo (runsTo_shiftOp hready h0 h1 h2 .shl)
  · exact lands_of_runsTo (runsTo_compareOp hready h0 h1 h2 .l)
  · exact lands_of_runsTo (runsTo_compareOp hready h0 h1 h2 .b)
  · exact lands_of_runsTo (runsTo_commutativeOp hready h0 h1 h2 .xor)
  · exact lands_of_runsTo (runsTo_shiftOp hready h0 h1 h2 .shr)
  · exact lands_of_runsTo (runsTo_shiftOp hready h0 h1 h2 .sar)
  · exact lands_of_runsTo (runsTo_commutativeOp hready h0 h1 h2 .or)
  · exact lands_of_runsTo (runsTo_commutativeOp hready h0 h1 h2 .and)
  · exact hmulDiv .mul
  · exact hmulDiv .mulh
  · exact hmulDiv .mulhsu
  · exact hmulDiv .mulhu
  · exact hmulDiv .div
  · exact hmulDiv .divu
  · exact hmulDiv .rem
  · exact hmulDiv .remu

theorem lands_immediate {indicator : Indicator} (hmem : indicator ∈ immediateIndicators)
    (h1 : param 1 = indexParam rs1) (h2 : param 2 = indexParam rd) (word address : Word) :
    BodyLands hc param (templateBody indicator) c vm
      ((jumpTarget word address vm.hart indicator).getD (vm.hart.pc + 4)) := by
  simp only [immediateIndicators, List.mem_cons, List.not_mem_nil, or_false] at hmem
  rcases hmem with rfl | rfl | rfl | rfl | rfl | rfl | rfl | rfl | rfl
  · exact lands_of_runsTo (runsTo_addi hready h1 h2)
  · exact lands_of_runsTo (runsTo_compareImmediateOp hready h1 h2 .l)
  · exact lands_of_runsTo (runsTo_compareImmediateOp hready h1 h2 .b)
  · exact lands_of_runsTo (runsTo_logicalImmediateOp hready h1 h2 .xor)
  · exact lands_of_runsTo (runsTo_logicalImmediateOp hready h1 h2 .or)
  · exact lands_of_runsTo (runsTo_logicalImmediateOp hready h1 h2 .and)
  · exact lands_of_runsTo (runsTo_shiftImmediateOp hready h1 h2 .shl)
  · exact lands_of_runsTo (runsTo_shiftImmediateOp hready h1 h2 .shr)
  · exact lands_of_runsTo (runsTo_shiftImmediateOp hready h1 h2 .sar)

theorem lands_load (l : LoadOp) (h1 : param 1 = indexParam rs1) (h2 : param 2 = indexParam rd) :
    BodyLands hc param (templateBody (loadIndicator l)) c vm (vm.hart.pc + 4) := by
  apply execWp_load l hready h1 h2
  refine wp_mono (ends_vmread_pcIs vm.hart.pc _ _ vm rfl) ?_ fun _ _ he => he
  exact fun _ t ht _ => pc_next ht

theorem lands_store (st : StoreOp) (h1 : param 1 = indexParam rs1) (h2 : param 2 = indexParam rs2) :
    BodyLands hc param (templateBody (storeIndicator st)) c vm (vm.hart.pc + 4) := by
  apply execWp_store st hready h1 h2
  refine wp_mono (ends_vmwrite_pcIs vm.hart.pc _ _ _ vm rfl) ?_ fun _ _ he => he
  exact fun _ t ht _ => pc_next ht

theorem lands_amo (h0 : param 0 = indexParam rs1) (h1 : param 1 = indexParam rs2)
    (h2 : param 2 = indexParam rd) :
    BodyLands hc param (templateBody .amo) c vm (vm.hart.pc + 4) := by
  apply execWp_amo hready h0 h1 h2
  refine wp_mono (ends_amo_pcIs vm.hart.pc _ _ _ _ vm rfl) ?_ fun _ _ he => he
  exact fun _ t ht _ => pc_next ht

theorem lands_csr : BodyLands hc param (templateBody .genericCsr) c vm (vm.hart.pc + 4) := by
  apply CsrInstructions.execWp_genericCsr hready
  refine wp_mono (ends_csr_pcIs vm.hart.pc _ vm rfl) ?_ fun _ _ he => he
  exact fun _ t ht _ => pc_next ht

theorem lands_branch (op : BranchOp) {word address : Word}
    (hparams : ParamsOf param
      (branchTranslator (branchIndicator op) (instructionDecodingPerType word .B) address)) :
    BodyLands hc param (templateBody (branchIndicator op)) c vm
      ((branchTarget word address vm.hart op).getD (vm.hart.pc + 4)) := by
  have hlands : BodyLands hc param (templateBody (branchIndicator op)) c vm _ :=
    lands_of_runsTo (runsTo_branchTemplate hready op (hparams 0 _ rfl) (hparams 1 _ rfl))
  rw [hparams 2 _ rfl] at hlands
  have hnext : ∀ (taken : Bool) (target next : Word),
      (if taken then target else next) = (if taken then some target else none).getD next := by
    intro taken target next
    cases taken <;> rfl
  unfold branchTarget
  rw [← hnext]
  exact hlands

/-! ## System instructions -/

/-- A callee that leaves the pc alone, and the way to the next instruction. -/
theorem lands_proceed {f : VmmFn} {m : VmM Unit} {rest : Code} (hf : hartCallee f = some m)
    (hm : Ends (OnHart (PcIs vm.hart.pc)) AlignedTrap m)
    (hrest : rest = endInstruction ∨ rest = trapToVmm) :
    BodyLands hc param (callOnHart f ++ (proceedToNextInstruction ++ rest)) c vm
      (vm.hart.pc + 4) := by
  apply execWp_callOnHart hready hf
  refine wp_mono (hm vm rfl) ?_ fun _ _ he => he
  intro _ t ht c' hready'
  rw [execWp_proceedToNextInstruction hready']
  rcases hrest with rfl | rfl
  · rw [endInstruction, execWp_jmpEnd]
    exact pc_next ht
  · rw [trapToVmm, execWp_jmpMonitor]
    exact pc_next ht

/-- A return, and the way back to the vmm. -/
theorem lands_return {f : VmmFn} {m : VmM Unit} {next : Word} (hf : hartCallee f = some m)
    (hm : Wp m (fun _ t => t.hart.pc = next) AlignedTrap vm) :
    BodyLands hc param (callOnHart f ++ trapToVmm) c vm next := by
  apply execWp_callOnHart hready hf
  refine wp_mono hm ?_ fun _ _ he => he
  intro _ t ht c' _
  rw [trapToVmm, execWp_jmpMonitor]
  exact ht

omit hready in
theorem wp_refused {Q : Unit → Vm → Prop} :
    Wp (raiseException EXCEPTION_ILLEEGAL_INSTRUCTION) Q AlignedTrap vm :=
  wp_raiseException (leaves_aligned fun _ => True) (by decide)
    (blockCauses_true _ _ (by decide) (by decide)) True.intro

omit hready in
theorem wp_mretCallback :
    Wp mretCallback (fun _ t => t.hart.pc = (jumpTarget 0 0 vm.hart .mret).getD (vm.hart.pc + 4))
      AlignedTrap vm := by
  unfold mretCallback assertHartRunningInMmode
  rw [wp_bind, wp_bind, wp_get]
  by_cases hlevel : vm.hart.privilegeLevel = PRIVILEGE_LEVEL_MACHINE
  · rw [if_neg (not_not.mpr hlevel), wp_pure, wp_bind, wp_get]
    unfold assert
    split
    · rename_i hmpp
      have hne : vm.hart.status.mpp ≠ 2 := by
        intro htwo
        rw [htwo] at hmpp
        exact absurd hmpp (by decide)
      show vm.hart.returnFromMmode.pc = (if _ then some _ else none : Option Word).getD _
      rw [(TrapNesting.returnFromMmode_control vm.hart).2, if_pos ⟨hlevel, hne⟩]
      rfl
    · intro htrap
      cases htrap
  · rw [if_pos hlevel]
    exact wp_refused

omit hready in
theorem wp_sretCallback :
    Wp sretCallback (fun _ t => t.hart.pc = (jumpTarget 0 0 vm.hart .sret).getD (vm.hart.pc + 4))
      AlignedTrap vm := by
  unfold sretCallback assertHartRunningInSmode
  rw [wp_bind, wp_bind, wp_get]
  by_cases hlevel : vm.hart.privilegeLevel = PRIVILEGE_LEVEL_SUPERVISOR
  · rw [if_neg (not_not.mpr hlevel), wp_pure]
    show vm.hart.returnFromSmode.pc = (if _ then some _ else none : Option Word).getD _
    rw [(TrapNesting.returnFromSmode_control vm.hart).2, if_pos hlevel]
    rfl
  · rw [if_pos hlevel]
    exact wp_refused

theorem lands_system {indicator : Indicator} (hmem : indicator ∈ systemIndicators)
    (word address : Word) :
    BodyLands hc param (templateBody indicator) c vm
      ((jumpTarget word address vm.hart indicator).getD (vm.hart.pc + 4)) := by
  have hleaves := leaves_aligned (PcIs vm.hart.pc)
  simp only [systemIndicators, List.mem_cons, List.not_mem_nil, or_false] at hmem
  rcases hmem with rfl | rfl | rfl | rfl | rfl | rfl | rfl | rfl
  · unfold BodyLands templateBody
    rw [execWp_proceedToNextInstruction hready, endInstruction, execWp_jmpEnd]
    rfl
  · apply lands_proceed hready rfl _ (.inr rfl)
    exact fun _ hs => hs
  · apply lands_proceed hready rfl _ (.inl rfl)
    exact ends_pure _
  · apply lands_proceed hready rfl _ (.inr rfl)
    exact ends_ecallCallback hleaves (blockCauses_true _)
  · exact lands_return hready rfl wp_mretCallback
  · exact lands_return hready rfl wp_sretCallback
  · apply lands_proceed hready rfl _ (.inr rfl)
    exact fun _ hs => hs
  · apply lands_proceed hready rfl _ (.inr rfl)
    exact ends_hartIdleLoop (refreshClosed_pcIs _) hleaves 64

/-! ## Every translated block -/

/-- Where an instruction that retires leaves the pc. -/
theorem block_lands {word address : Word} {e : Emitted}
    (htranslate : Vmm.translate word address = some e) (hparams : ParamsOf param e) :
    Wp (runBlock hc e.indicator param c)
      (fun _ t =>
        t.hart.pc = (jumpTarget word address vm.hart e.indicator).getD (vm.hart.pc + 4))
      AlignedTrap vm := by
  apply runBlock_wp hready
  intro c hready
  cases emission_translate htranslate with
  | lui => exact lands_of_runsTo (runsTo_lui hready (hparams 1 _ rfl))
  | auipc => exact lands_of_runsTo (runsTo_auipc hready (hparams 1 _ rfl))
  | jal =>
      have hlands : BodyLands hc param (templateBody .jal) c vm _ :=
        lands_of_runsTo (runsTo_jal hready (hparams 0 _ rfl))
      rw [hparams 2 _ rfl] at hlands
      exact hlands
  | jalr =>
      have hlands : BodyLands hc param (templateBody .jalr) c vm _ :=
        lands_of_runsTo (runsTo_jalr hready (hparams 0 _ rfl) (hparams 2 _ rfl))
      rw [hparams 3 _ rfl] at hlands
      exact hlands
  | immediate mem imm dec =>
      exact lands_immediate hready mem (hparams 1 _ rfl) (hparams 2 _ rfl) word address
  | register mem dec =>
      exact lands_register hready mem (hparams 0 _ rfl) (hparams 1 _ rfl) (hparams 2 _ rfl)
        word address
  | branch mem =>
      simp only [branchIndicators, List.mem_cons, List.not_mem_nil, or_false] at mem
      rcases mem with rfl | rfl | rfl | rfl | rfl | rfl
      · exact lands_branch hready .beq hparams
      · exact lands_branch hready .bne hparams
      · exact lands_branch hready .blt hparams
      · exact lands_branch hready .bge hparams
      · exact lands_branch hready .bltu hparams
      · exact lands_branch hready .bgeu hparams
  | load mem dec =>
      have h1 := hparams 1 _ rfl
      have h2 := hparams 2 _ rfl
      simp only [loadIndicators, List.mem_cons, List.not_mem_nil, or_false] at mem
      rcases mem with rfl | rfl | rfl | rfl | rfl
      · exact lands_load hready .lb h1 h2
      · exact lands_load hready .lh h1 h2
      · exact lands_load hready .lw h1 h2
      · exact lands_load hready .lbu h1 h2
      · exact lands_load hready .lhu h1 h2
  | store mem dec =>
      have h1 := hparams 1 _ rfl
      have h2 := hparams 2 _ rfl
      simp only [storeIndicators, List.mem_cons, List.not_mem_nil, or_false] at mem
      rcases mem with rfl | rfl | rfl
      · exact lands_store hready .sb h1 h2
      · exact lands_store hready .sh h1 h2
      · exact lands_store hready .sw h1 h2
  | amo dec => exact lands_amo hready (hparams 0 _ rfl) (hparams 1 _ rfl) (hparams 2 _ rfl)
  | system mem => exact lands_system hready mem word address
  | csr => exact lands_csr hready

end Blocks

/-! ## Runs -/

/--
A guest program from an aligned reset pc, with the host registers control is
handed on with.  A block is any word of the guest, translated at whatever
address it was found; `allowed` restricts those that run.
-/
inductive Run (hc : HostCode) (allowed : Word → Word → Indicator → Hart → Prop) : Vm → Cpu → Prop
  | start {vm : Vm} (aligned : Aligned vm.hart.pc) : Run hc allowed vm (entryCpu hc)
  /-- `vmresume` loads the context registers again. -/
  | enter {vm : Vm} {c : Cpu} (run : Run hc allowed vm c) : Run hc allowed vm (entryCpu hc)
  /-- An instruction retires. -/
  | block {vm t : Vm} {c : Cpu} {r : End × Cpu} {word address : Word} {e : Emitted}
      {param : Nat → Word} (run : Run hc allowed vm c)
      (translated : Vmm.translate word address = some e) (params : ParamsOf param e)
      (ok : allowed word address e.indicator vm.hart)
      (ran : runBlock hc e.indicator param c vm = .ok r t) : Run hc allowed t r.2
  /-- An instruction traps. -/
  | trap {vm t : Vm} {c : Cpu} {word address : Word} {e : Emitted} {param : Nat → Word}
      (run : Run hc allowed vm c) (translated : Vmm.translate word address = some e)
      (params : ParamsOf param e) (ok : allowed word address e.indicator vm.hart)
      (ran : runBlock hc e.indicator param c vm = .error .trap t) : Run hc allowed t c
  | prefetch {vm t : Vm} {c : Cpu} (run : Run hc allowed vm c)
      (ran : prefetchInstructions hc vm = .ok () t ∨ prefetchInstructions hc vm = .error .trap t) :
      Run hc allowed t c
  | pump {vm t : Vm} {c : Cpu} (run : Run hc allowed vm c)
      (ran : pumpDevicesAndDeliverInterrupts vm = .ok () t ∨
        pumpDevicesAndDeliverInterrupts vm = .error .trap t) : Run hc allowed t c

section Run

variable {hc : HostCode} {vm : Vm} {c : Cpu}

/-- Either way out of vmm code that leaves the pc alone or traps. -/
theorem aligned_of_ends {m : VmM Unit} {t : Vm} (hpc : Aligned vm.hart.pc)
    (hm : Ends (OnHart (PcIs vm.hart.pc)) AlignedTrap m)
    (ran : m vm = .ok () t ∨ m vm = .error .trap t) : Aligned t.hart.pc := by
  have hwp := hm vm rfl
  rcases ran with ran | ran
  · have ht : t.hart.pc = vm.hart.pc := (wp_of_ok ran).mp hwp
    rw [ht]
    exact hpc
  · exact (wp_of_error ran).mp hwp rfl

/-- Going on or jumping, an instruction leaves the pc aligned exactly when its target is. -/
theorem aligned_next_iff {word address : Word} {indicator : Indicator} {h : Hart}
    (hpc : Aligned h.pc) :
    Aligned ((jumpTarget word address h indicator).getD (h.pc + 4)) ↔
      LandsAligned word address indicator h := by
  unfold LandsAligned
  cases jumpTarget word address h indicator with
  | none =>
      constructor
      · intro _ target hnone
        cases hnone
      · exact fun _ => aligned_add_four hpc
  | some target =>
      constructor
      · rintro haligned _ ⟨⟩
        exact haligned
      · exact fun hlands => hlands target rfl

theorem retired_aligned_iff {t : Vm} {r : End × Cpu} {word address : Word} {e : Emitted}
    {param : Nat → Word} (hready : Ready hc c) (hpc : Aligned vm.hart.pc)
    (htranslate : Vmm.translate word address = some e) (hparams : ParamsOf param e)
    (ran : runBlock hc e.indicator param c vm = .ok r t) :
    Aligned t.hart.pc ↔ LandsAligned word address e.indicator vm.hart := by
  have hnext := (wp_of_ok ran).mp (block_lands hready htranslate hparams)
  rw [hnext]
  exact aligned_next_iff hpc

theorem Run.aligned (h : Run hc LandsAligned vm c) : Ready hc c ∧ Aligned vm.hart.pc := by
  induction h with
  | start aligned => exact ⟨ready_entryCpu hc, aligned⟩
  | enter _ ih => exact ⟨ready_entryCpu hc, ih.2⟩
  | @block vm t c r word address e param _ translated params ok ran ih =>
      have hready := ZeroRegister.runBlock_ready ih.1 e.indicator param vm
      constructor
      · exact (wp_of_ok ran).mp hready
      · exact (retired_aligned_iff ih.1 ih.2 translated params ran).mpr ok
  | @trap vm t c word address e param _ translated params _ ran ih =>
      have hwp : Wp (runBlock hc e.indicator param c) _ AlignedTrap vm :=
        block_lands ih.1 translated params
      exact ⟨ih.1, (wp_of_error ran).mp hwp rfl⟩
  | @prefetch vm t c _ ran ih =>
      have hends := ends_prefetchInstructions (fillClosed_pcIs vm.hart.pc)
        (prefetchClosed_pcIs vm.hart.pc) (leaves_aligned _) (fun _ _ => True.intro) hc
      exact ⟨ih.1, aligned_of_ends ih.2 hends ran⟩
  | @pump vm t c _ ran ih =>
      have hends := ends_pumpDevicesAndDeliverInterrupts (refreshClosed_pcIs vm.hart.pc)
        (leaves_aligned _) fun _ _ _ _ _ => True.intro
      exact ⟨ih.1, aligned_of_ends ih.2 hends ran⟩

end Run

/--
The pc is aligned for as long as every jump, taken branch and return leads to a
multiple of four.  No other instruction, and no trap, breaks the alignment; the
first instruction that leads elsewhere and retires does.
-/
theorem pc_aligned_of_aligned_targets {hc : HostCode} {vm : Vm} {c : Cpu}
    (h : Run hc LandsAligned vm c) :
    Aligned vm.hart.pc ∧
      ∀ (word address : Word) (e : Emitted) (param : Nat → Word) (r : End × Cpu) (t : Vm),
        Vmm.translate word address = some e → ParamsOf param e →
        runBlock hc e.indicator param c vm = .ok r t →
        (Aligned t.hart.pc ↔ LandsAligned word address e.indicator vm.hart) := by
  obtain ⟨hready, hpc⟩ := h.aligned
  constructor
  · exact hpc
  · intro word address e param r t htranslate hparams hran
    exact retired_aligned_iff hready hpc htranslate hparams hran

/-- The machine whose ROM holds `word` where the hart starts. -/
def jumpVm (word : Word) : Vm :=
  virtualMachineInit (fun offset => (word >>> (8 * (offset - 0x4000))).setWidth 8) fun _ => 0

/-- The parameters of a list, as a block reads them. -/
def paramsAt (params : List Word) (k : Nat) : Word :=
  params.getD k 0

theorem paramsOf_paramsAt (e : Emitted) : ParamsOf (paramsAt e.params) e := by
  intro j w hw
  rw [paramsAt, List.getD_eq_getElem?_getD, hw]
  rfl

/-- `jal x0, 8` at the reset pc. -/
theorem pc_aligned_by_jal :
    ∃ r t, runBlock evenHostCode .jal (paramsAt [0, 0x4004, 0x4008]) (entryCpu evenHostCode)
        (jumpVm 0x0080006f) = .ok r t ∧
      Run evenHostCode LandsAligned t r.2 ∧ Aligned t.hart.pc := by
  have hok : isOk (runBlock evenHostCode .jal (paramsAt [0, 0x4004, 0x4008])
      (entryCpu evenHostCode) (jumpVm 0x0080006f)) = true := by decide +kernel
  have htranslate : Vmm.translate 0x0080006f 0x4000 = some ⟨.jal, [0, 0x4004, 0x4008], true⟩ := by
    decide +kernel
  have hlands : LandsAligned 0x0080006f 0x4000 .jal (jumpVm 0x0080006f).hart := by
    rintro target ⟨⟩
    decide +kernel
  obtain ⟨r, hran⟩ := eq_ok_of_isOk hok
  have hstart : Aligned (jumpVm 0x0080006f).hart.pc := by decide
  have hrun := Run.block (.start hstart) htranslate (paramsOf_paramsAt _) hlands hran
  exact ⟨r, _, hran, hrun, (pc_aligned_of_aligned_targets hrun).1⟩

/--
`jalr x0, 2(x0)` at the reset pc jumps to address 2 and nothing is raised: the
guest goes on there.
-/
theorem pc_misaligned_by_jalr :
    isOk (vmresume evenHostCode (jumpVm 0x00200067)) = true ∧
      (finalState (vmresume evenHostCode (jumpVm 0x00200067))).hart.pc = 2 ∧
      ¬∀ (hc : HostCode) (vm : Vm) (c : Cpu), Run hc (fun _ _ _ _ => True) vm c →
        Aligned vm.hart.pc := by
  refine ⟨by decide +kernel, by decide +kernel, ?_⟩
  intro haligned
  have hok : isOk (runBlock evenHostCode .jalr (paramsAt [0, 0x4004, 0, 2])
      (entryCpu evenHostCode) (jumpVm 0x00200067)) = true := by decide +kernel
  have hpc : (finalState (runBlock evenHostCode .jalr (paramsAt [0, 0x4004, 0, 2])
      (entryCpu evenHostCode) (jumpVm 0x00200067))).hart.pc = 2 := by decide +kernel
  have htranslate : Vmm.translate 0x00200067 0x4000 = some ⟨.jalr, [0, 0x4004, 0, 2], true⟩ := by
    decide +kernel
  obtain ⟨r, hran⟩ := eq_ok_of_isOk hok
  have hstart : Aligned (jumpVm 0x00200067).hart.pc := by decide
  have hrun : Run evenHostCode (fun _ _ _ _ => True) _ r.2 :=
    .block (.start hstart) htranslate (paramsOf_paramsAt _) True.intro hran
  have hbad := haligned _ _ _ hrun
  rw [hpc] at hbad
  exact absurd hbad (by decide)

end Zelda.Proofs.AlignedPc
