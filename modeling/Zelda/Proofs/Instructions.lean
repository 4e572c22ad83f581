import Zelda.Proofs.Decode
import Zelda.Proofs.FallThrough
import Zelda.Proofs.Templates
/-!
# Translated instructions refine the instruction set

Each code template, run with the parameter words its translator wrote, does to
the registers and the pc what the instruction it stands for does, and nothing
else to the machine.
-/

namespace Zelda.Proofs.Instructions

open Zelda.Vmm
open Zelda.Isa
open Zelda.Lib.Effect
open Zelda.Lib.X86
open Zelda.Proofs.Decode
open Zelda.Proofs.FallThrough
open Zelda.Proofs.Prefetch
open Zelda.Proofs.Templates

/-- Masking a shift count to five bits does not change the bits `%cl` is used for. -/
theorem shiftCount_masked (v : Word) :
    ((v &&& 0x1f).setWidth 64).setWidth 5 = v.setWidth 5 := by
  apply BitVec.eq_of_toNat_eq
  have hmask : (v &&& 0x1f).toNat = v.toNat % 2 ^ 5 := by
    rw [BitVec.toNat_and]
    exact Nat.and_two_pow_sub_one_eq_mod v.toNat 5
  simp only [BitVec.toNat_setWidth, hmask]
  omega

/-- The code runs to its end and leaves the hart as `h`, all else as it was. -/
def RunsTo (hc : HostCode) (param : Nat → Word) (code : Code) (c : Cpu) (vm : Vm) (h : Hart) :
    Prop :=
  ExecWp (hostEnv hc) param code c (fun _ t => t = { vm with hart := h }) (fun _ _ => False) vm

theorem holds_ge (f : Flags) : Cond.ge.holds f = !Cond.l.holds f := by
  simp only [Cond.holds, bne, Bool.not_not]

/-- An upper immediate, shifted into place. -/
theorem upperImmediate_eq (imm : BitVec 20) : imm.setWidth 32 <<< 12 = imm ++ 0#12 := by
  have happend : (imm ++ 0#12).setWidth 32 = imm.setWidth 32 <<< 12 ||| (0#12).setWidth 32 :=
    Zelda.Lib.Bits.setWidth_append imm 0#12
  rw [BitVec.setWidth_eq] at happend
  rw [happend]
  simp

theorem jumpTo_eq_some {registers : RegIndex → Word} {target : Word} {s : State}
    (h : jumpTo registers target = some s) : target &&& 3 = 0 ∧ s = ⟨registers, target⟩ := by
  unfold jumpTo at h
  split at h
  · rename_i haligned
    exact ⟨haligned, (Option.some.inj h).symm⟩
  · cases h

/-! ## Arithmetic templates -/

section Arithmetic

variable {hc : HostCode} {param : Nat → Word} {c : Cpu} {vm : Vm} {rs1 rs2 rd : RegIndex}

section Register

variable (hready : Ready hc c) (h0 : param 0 = indexParam rs1) (h1 : param 1 = indexParam rs2)
  (h2 : param 2 = indexParam rd)

include hready h0 h1 h2

theorem runsTo_commutativeOp (op : Alu) :
    RunsTo hc param (commutativeOp op) c vm (retired vm.hart rd
      (op.apply (vm.hart.registers rs1) (vm.hart.registers rs2))) := by
  unfold RunsTo commutativeOp
  simp only [List.append_assoc]
  refine execWp_loadGuestReg hready h0 rfl fun c₁ hready₁ hrs1 _ => ?_
  refine execWp_loadGuestReg hready₁ h1 rfl fun c₂ hready₂ hrs2 hsame => ?_
  rw [List.singleton_append, execWp_alu]
  refine execWp_retire (hready₂.set rfl _).noFlags h2 (by decide) ?_ fun _ => rfl
  rw [get32_noFlags, get32_set32_self, hrs2]
  simp only [Operand.value]
  rw [hsame.get32 (by decide), hrs1]

theorem runsTo_sub :
    RunsTo hc param (templateBody .sub) c vm (retired vm.hart rd
      (vm.hart.registers rs1 - vm.hart.registers rs2)) := by
  unfold RunsTo templateBody
  simp only [List.append_assoc]
  refine execWp_loadGuestReg hready h0 rfl fun c₁ hready₁ hrs1 _ => ?_
  refine execWp_loadGuestReg hready₁ h1 rfl fun c₂ hready₂ hrs2 hsame => ?_
  rw [List.singleton_append, execWp_alu]
  refine execWp_retire (hready₂.set rfl _).noFlags h2 (by decide) ?_ fun _ => rfl
  rw [get32_noFlags, get32_set32_self, hsame.get32 (by decide), hrs1]
  simp only [Operand.value]
  rw [hrs2]
  rfl

theorem runsTo_compareOp (cond : Cond) :
    RunsTo hc param (compareOp cond) c vm (retired vm.hart rd
      (if cond.holds (Flags.ofSub (vm.hart.registers rs1) (vm.hart.registers rs2)) then 1
        else 0)) := by
  unfold RunsTo compareOp
  simp only [List.append_assoc, List.cons_append, List.nil_append, execWp_alu]
  refine execWp_loadGuestReg (hready.set rfl _).noFlags h0 rfl fun c₁ hready₁ hrs1 _ => ?_
  refine execWp_loadGuestReg hready₁ h1 rfl fun c₂ hready₂ hrs2 hsame => ?_
  rw [execWp_cmpl, execWp_setcc rfl, execWp_extend]
  refine execWp_retire (((hready₂.setFlags _).set rfl _).set rfl _) h2 (by decide) ?_
    fun _ => rfl
  have hrsi : c₂.get32 .rsi = vm.hart.registers rs1 := by
    rw [hsame.get32 (by decide), hrs1]
  rw [get32_set32_self, get_set_self, movzbl_setcc]
  simp only [Operand.value, hrsi, hrs2]

theorem runsTo_shiftOp (op : Shift) :
    RunsTo hc param (shiftOp op) c vm (retired vm.hart rd
      (op.apply ((vm.hart.registers rs2).setWidth 5).toNat (vm.hart.registers rs1))) := by
  unfold RunsTo shiftOp
  simp only [List.append_assoc]
  refine execWp_loadGuestReg hready h0 rfl fun c₁ hready₁ hrs1 _ => ?_
  refine execWp_loadGuestReg hready₁ h1 rfl fun c₂ hready₂ hrs2 hsame => ?_
  rw [List.cons_append, List.singleton_append, execWp_alu, execWp_shiftCl]
  refine execWp_retire ((hready₂.set rfl _).noFlags.set rfl _).noFlags h2 (by decide) ?_
    fun _ => rfl
  have hrax : c₂.get32 .rax = vm.hart.registers rs1 := by
    rw [hsame.get32 (by decide), hrs1]
  rw [get32_noFlags, get32_set32_self, get32_noFlags, get32_set32_of_ne _ (by decide), hrax, hrs2]
  exact congrArg (fun n : BitVec 5 => op.apply n.toNat _) (shiftCount_masked _)

end Register

section Immediate

variable (hready : Ready hc c) (h1 : param 1 = indexParam rs1) (h2 : param 2 = indexParam rd)

include hready h1 h2

theorem runsTo_addi :
    RunsTo hc param (templateBody .addi) c vm (retired vm.hart rd
      (vm.hart.registers rs1 + param 0)) := by
  unfold RunsTo templateBody
  simp only [List.append_assoc]
  refine execWp_loadGuestReg hready h1 rfl fun c₁ hready₁ hrs1 _ => ?_
  simp only [List.cons_append, List.nil_append, execWp_movl, execWp_alu]
  refine execWp_retire ((hready₁.set rfl _).set rfl _).noFlags h2 (by decide) ?_ fun _ => rfl
  rw [get32_noFlags, get32_set32_self, get32_set32_of_ne _ (by decide), hrs1]
  simp only [Operand.value, get32_set32_self, Alu.apply]

theorem runsTo_logicalImmediateOp (op : Alu) :
    RunsTo hc param (logicalImmediateOp op) c vm (retired vm.hart rd
      (op.apply (param 0) (vm.hart.registers rs1))) := by
  unfold RunsTo logicalImmediateOp
  simp only [List.append_assoc, List.cons_append, List.nil_append, execWp_alu]
  refine execWp_loadGuestReg (hready.set rfl _).noFlags h1 rfl fun c₁ hready₁ hrs1 _ => ?_
  simp only [execWp_movl, execWp_alu]
  refine execWp_retire ((hready₁.set rfl _).set rfl _).noFlags h2 (by decide) ?_ fun _ => rfl
  rw [get32_noFlags, get32_set32_self, get32_set32_of_ne _ (by decide), hrs1]
  simp only [Operand.value, get32_set32_self]

theorem runsTo_compareImmediateOp (cond : Cond) :
    RunsTo hc param (compareImmediateOp cond) c vm (retired vm.hart rd
      (if cond.holds (Flags.ofSub (vm.hart.registers rs1) (param 0)) then 1 else 0)) := by
  unfold RunsTo compareImmediateOp
  simp only [List.append_assoc, List.cons_append, List.nil_append, execWp_alu]
  refine execWp_loadGuestReg (hready.set rfl _).noFlags h1 rfl fun c₁ hready₁ hrs1 _ => ?_
  rw [execWp_cmpl, execWp_setcc rfl, execWp_extend]
  refine execWp_retire (((hready₁.setFlags _).set rfl _).set rfl _) h2 (by decide) ?_
    fun _ => rfl
  rw [get32_set32_self, get_set_self, movzbl_setcc]
  simp only [Operand.value, hrs1]

theorem runsTo_shiftImmediateOp (op : Shift) :
    RunsTo hc param (shiftImmediateOp op) c vm (retired vm.hart rd
      (op.apply ((param 0).setWidth 5).toNat (vm.hart.registers rs1))) := by
  unfold RunsTo shiftImmediateOp
  simp only [List.append_assoc, List.cons_append, List.nil_append, execWp_alu]
  refine execWp_loadGuestReg (hready.set rfl _).noFlags h1 rfl fun c₁ hready₁ hrs1 _ => ?_
  rw [execWp_movl, execWp_alu, execWp_shiftCl]
  refine execWp_retire (((hready₁.set rfl _).set rfl _).noFlags.set rfl _).noFlags h2
    (by decide) ?_ fun _ => rfl
  have hrax : (c₁.set32 .rcx (param 0)).get32 .rax = vm.hart.registers rs1 := by
    rw [get32_set32_of_ne _ (by decide), hrs1]
  simp only [Operand.value, get32_noFlags, get32_set32_self]
  rw [get32_set32_of_ne _ (by decide), hrax]
  exact congrArg (fun n : BitVec 5 => op.apply n.toNat _) (shiftCount_masked _)

end Immediate

/-- The tail of the templates that compute the address of `rd` first. -/
theorem runsTo_storeRetire {src addr : Reg} {value : Word} (hready : Ready hc c)
    (hslot : hartSlot hc (c.get addr) = some (.register rd)) (hvalue : c.get32 src = value) :
    RunsTo hc param
      (.movlStore (.reg src) addr ::
        (resetZeroRegister ++ (proceedToNextInstruction ++ endInstruction))) c vm
      (retired vm.hart rd value) := by
  unfold RunsTo
  rw [← hvalue, execWp_storeReg hslot, execWp_resetZeroRegister hready,
    execWp_proceedToNextInstruction hready, endInstruction, execWp_jmpEnd]
  rfl

theorem runsTo_lui (hready : Ready hc c) (h1 : param 1 = indexParam rd) :
    RunsTo hc param (templateBody .lui) c vm (retired vm.hart rd (param 0 <<< 12)) := by
  unfold RunsTo templateBody
  simp only [List.append_assoc, List.cons_append, List.nil_append, execWp_movl, execWp_shiftImm,
    execWp_addq, Operand.value, h1]
  -- the index is shifted and turned into an address while the immediate waits in `%eax`
  set c₁ := (c.set32 .rax (param 0)).set32 .rdx (indexParam rd)
  set c₂ := (c₁.set32 .rax (Shift.shl.apply 12 (c₁.get32 .rax))).noFlags
  set c₃ := (c₂.set32 .rdx (Shift.shl.apply 2 (c₂.get32 .rdx))).noFlags
  have hready₃ : Ready hc c₃ :=
    ((((hready.set rfl _).set rfl _).set rfl _).noFlags.set rfl _).noFlags
  have hrax : c₁.get32 .rax = param 0 := by
    rw [get32_set32_of_ne _ (by decide), get32_set32_self]
  have hrdx : c₂.get32 .rdx = indexParam rd := by
    rw [get32_noFlags, get32_set32_of_ne _ (by decide), get32_set32_self]
  have hslot : hartSlot hc ((c₃.set .rdx (c₃.get .rdx + c₃.get .r15)).noFlags.get .rdx) =
      some (.register rd) := by
    have hbase : c₃.get .r15 = hc.hartBase := hready₃.r15
    rw [get_noFlags, get_set_self, hbase, get_noFlags, Cpu.set32, get_set_self, hrdx]
    exact hartSlot_register hc rd
  have hvalue : (c₃.set .rdx (c₃.get .rdx + c₃.get .r15)).noFlags.get32 .rax = param 0 <<< 12 := by
    rw [get32_noFlags, Cpu.get32, get_set_of_ne _ (by decide), get_noFlags,
      get_set32_of_ne _ (by decide), ← Cpu.get32, get32_noFlags, get32_set32_self, hrax]
    rfl
  exact runsTo_storeRetire (hready₃.set rfl _).noFlags hslot hvalue

theorem runsTo_auipc (hready : Ready hc c) (h1 : param 1 = indexParam rd) :
    RunsTo hc param (templateBody .auipc) c vm (retired vm.hart rd
      ((param 0 <<< 12) + param 2)) := by
  unfold RunsTo templateBody
  simp only [List.append_assoc]
  refine execWp_guestRegAddress hready h1 rfl fun c₁ hready₁ hslot _ => ?_
  simp only [List.cons_append, List.nil_append, execWp_movl, execWp_shiftImm, execWp_alu,
    Operand.value, get32_set32_self]
  set c₂ := (c₁.set32 .rax (param 0)).set32 .rax (Shift.shl.apply 12 (param 0))
  set c₃ := c₂.noFlags.set32 .rcx (param 2)
  have hready₃ : Ready hc c₃ := ((hready₁.set rfl _).set rfl _).noFlags.set rfl _
  have hrax : c₃.get32 .rax = param 0 <<< 12 := by
    rw [get32_set32_of_ne _ (by decide), get32_noFlags, get32_set32_self]
    rfl
  have hslot₃ : hartSlot hc ((c₃.set32 .rax (Alu.add.apply (param 2) (c₃.get32 .rax))).noFlags.get
      .rdx) = some (.register rd) := by
    rw [get_noFlags, get_set32_of_ne _ (by decide), get_set32_of_ne _ (by decide), get_noFlags,
      get_set32_of_ne _ (by decide), get_set32_of_ne _ (by decide), hslot]
  refine runsTo_storeRetire (hready₃.set rfl _).noFlags hslot₃ ?_
  rw [get32_noFlags, get32_set32_self, hrax]
  rfl

end Arithmetic

/-! ## Control transfer -/

section Control

variable {hc : HostCode} {param : Nat → Word} {c : Cpu} {vm : Vm} {rs1 rs2 rd : RegIndex}

/-- The hart after a jump that links `rd`. -/
def jumped (h : Hart) (rd : RegIndex) (link target : Word) : Hart :=
  { (h.setReg rd link).setReg 0 0 with pc := target }

theorem runsTo_jal (hready : Ready hc c) (h0 : param 0 = indexParam rd) :
    RunsTo hc param (templateBody .jal) c vm (jumped vm.hart rd (param 1) (param 2)) := by
  unfold RunsTo templateBody
  simp only [List.append_assoc]
  refine execWp_guestRegAddress hready h0 rfl fun c₁ hready₁ hslot _ => ?_
  have hslot₂ : hartSlot hc ((c₁.set32 .rax (param 1)).get .rdx) = some (.register rd) := by
    rw [get_set32_of_ne _ (by decide), hslot]
  have hready₃ : Ready hc ((c₁.set32 .rax (param 1)).set32 .rax (param 2)) :=
    (hready₁.set rfl _).set rfl _
  simp only [List.cons_append, List.nil_append, execWp_movl, Operand.value]
  rw [execWp_storeReg hslot₂, execWp_movl]
  simp only [Operand.value, get32_set32_self]
  rw [execWp_storePc hready₃, execWp_resetZeroRegister hready₃, trapToVmm, execWp_jmpMonitor,
    get32_set32_self]
  rfl

theorem runsTo_jalr (hready : Ready hc c) (h0 : param 0 = indexParam rd)
    (h2 : param 2 = indexParam rs1) :
    RunsTo hc param (templateBody .jalr) c vm (jumped vm.hart rd (param 1)
      ((vm.hart.registers rs1 + param 3) &&& ~~~1#32)) := by
  unfold RunsTo templateBody
  simp only [List.append_assoc]
  refine execWp_loadGuestReg hready h2 rfl fun c₁ hready₁ hrs1 _ => ?_
  simp only [List.cons_append, List.nil_append, execWp_movl, execWp_alu, execWp_btr,
    Operand.value, get32_set32_self, get32_noFlags]
  -- the target is complete in `%ebx` before `rd` is written, which may be `rs1`
  set c₂ := ((c₁.set32 .rax (param 3)).set32 .rbx
    (Alu.add.apply (param 3) ((c₁.set32 .rax (param 3)).get32 .rbx))).noFlags
  set target := Alu.add.apply (param 3) ((c₁.set32 .rax (param 3)).get32 .rbx) &&& ~~~(1#32 <<< 0)
  have hready₂ : Ready hc (c₂.set32 .rbx target).noFlags :=
    (((hready₁.set rfl _).set rfl _).noFlags.set rfl _).noFlags
  have htarget : target = (vm.hart.registers rs1 + param 3) &&& ~~~1#32 := by
    show Alu.add.apply (param 3) _ &&& _ = _
    rw [get32_set32_of_ne _ (by decide), hrs1]
    rfl
  refine execWp_guestRegAddress hready₂ h0 rfl fun c₃ hready₃ hslot hsame => ?_
  have hslot₄ : hartSlot hc ((c₃.set32 .rax (param 1)).get .rdx) = some (.register rd) := by
    rw [get_set32_of_ne _ (by decide), hslot]
  have hrbx : (c₃.set32 .rax (param 1)).get32 .rbx = target := by
    rw [get32_set32_of_ne _ (by decide), hsame.get32 (by decide), get32_noFlags, get32_set32_self]
  have hready₄ : Ready hc (c₃.set32 .rax (param 1)) := hready₃.set rfl _
  rw [execWp_movl]
  simp only [Operand.value]
  rw [execWp_storeReg hslot₄, execWp_storePc hready₄, execWp_resetZeroRegister hready₄, trapToVmm,
    execWp_jmpMonitor, get32_set32_self, hrbx, htarget]
  rfl

/-- A branch whose comparison leaves the flags `f`. -/
theorem runsTo_branchOp {src dst : Reg} {f : Flags} (hready : Ready hc c)
    (h0 : param 0 = indexParam rs1) (h1 : param 1 = indexParam rs2)
    (hflags : ∀ c' : Cpu, c'.get32 .rsi = vm.hart.registers rs1 →
      c'.get32 .rdi = vm.hart.registers rs2 →
      Flags.ofSub (c'.get32 dst) (c'.get32 src) = f) (skipWhen : Cond) :
    RunsTo hc param (branchOp (.cmpl (.reg src) dst) skipWhen) c vm
      { vm.hart with pc := if skipWhen.holds f then vm.hart.pc + 4 else param 2 } := by
  unfold RunsTo branchOp branchOperands
  simp only [List.append_assoc]
  refine execWp_loadGuestReg hready h0 rfl fun c₁ hready₁ hrs1 _ => ?_
  refine execWp_loadGuestReg hready₁ h1 rfl fun c₂ hready₂ hrs2 hsame => ?_
  simp only [List.cons_append, List.nil_append]
  rw [execWp_loadPc hready₂, execWp_alu, execWp_cmpl]
  simp only [Operand.value]
  set c₃ := ((c₂.set32 .rdx vm.hart.pc).set32 .rdx
    (Alu.add.apply 4 ((c₂.set32 .rdx vm.hart.pc).get32 .rdx))).noFlags
  have hready₃ : Ready hc c₃ := ((hready₂.set rfl _).set rfl _).noFlags
  have hrsi : c₃.get32 .rsi = vm.hart.registers rs1 := by
    rw [get32_noFlags, get32_set32_of_ne _ (by decide), get32_set32_of_ne _ (by decide),
      hsame.get32 (by decide), hrs1]
  have hrdi : c₃.get32 .rdi = vm.hart.registers rs2 := by
    rw [get32_noFlags, get32_set32_of_ne _ (by decide), get32_set32_of_ne _ (by decide), hrs2]
  have hrdx : c₃.get32 .rdx = vm.hart.pc + 4 := by
    rw [get32_noFlags, get32_set32_self, get32_set32_self]
    rfl
  rw [hflags c₃ hrsi hrdi, execWp_jcc rfl]
  have hready₄ : Ready hc { c₃ with flags := some f } := hready₃.setFlags _
  have hrdx₄ : ({ c₃ with flags := some f } : Cpu).get32 .rdx = vm.hart.pc + 4 := hrdx
  by_cases hskip : skipWhen.holds f = true
  · rw [if_pos hskip, if_pos hskip]
    simp only [List.drop_succ_cons, List.drop_zero]
    rw [execWp_storePc hready₄, trapToVmm, execWp_jmpMonitor, hrdx₄]
  · have hready₅ : Ready hc (({ c₃ with flags := some f } : Cpu).set32 .rdx (param 2)) :=
      hready₄.set rfl _
    rw [if_neg hskip, if_neg hskip, execWp_movl]
    simp only [Operand.value]
    rw [execWp_storePc hready₅, trapToVmm, execWp_jmpMonitor, get32_set32_self]

theorem runsTo_branch_of_taken {src dst : Reg} {f : Flags} (hready : Ready hc c)
    (h0 : param 0 = indexParam rs1) (h1 : param 1 = indexParam rs2)
    (hflags : ∀ c' : Cpu, c'.get32 .rsi = vm.hart.registers rs1 →
      c'.get32 .rdi = vm.hart.registers rs2 →
      Flags.ofSub (c'.get32 dst) (c'.get32 src) = f) (skipWhen : Cond) {taken : Bool}
    (htaken : skipWhen.holds f = !taken) :
    RunsTo hc param (branchOp (.cmpl (.reg src) dst) skipWhen) c vm
      { vm.hart with pc := if taken then param 2 else vm.hart.pc + 4 } := by
  have hrun := runsTo_branchOp hready h0 h1 hflags skipWhen
  rw [htaken] at hrun
  cases taken with
  | true => exact hrun
  | false => exact hrun

end Control

/-! ## Parameter words -/

theorem writeParams_word (h : Hart) (offset : Nat) (params : List Word) {j i : Nat}
    (hj : j < params.length) (hi : i < 4) :
    (h.writeParams offset params).translationCache (offset + 4 * j + i) =
      .data (BitVec.ofNat 8 (params[j].toNat / 256 ^ i)) := by
  induction params generalizing h offset j with
  | nil => cases hj
  | cons word rest ih =>
      rw [Hart.writeParams]
      cases j with
      | zero =>
          rw [(writeParams_cache _ (offset + 4) rest _).2 (by omega)]
          have hsub : offset + 4 * 0 + i - offset = i := by omega
          simp only [List.getElem_cons_zero]
          rw [if_pos (by omega), hsub]
      | succ j =>
          have hindex : offset + 4 * (j + 1) + i = offset + 4 + 4 * j + i := by omega
          rw [hindex, List.getElem_cons_succ]
          exact ih _ _ (Nat.lt_of_succ_lt_succ hj)

theorem word_of_bytes (w : Word) :
    BitVec.ofNat 8 (w.toNat / 256 ^ 3) ++ BitVec.ofNat 8 (w.toNat / 256 ^ 2) ++
      BitVec.ofNat 8 (w.toNat / 256 ^ 1) ++ BitVec.ofNat 8 (w.toNat / 256 ^ 0) = w := by
  have hw := w.isLt
  apply BitVec.eq_of_toNat_eq
  simp only [Zelda.Lib.Bits.toNat_append, BitVec.toNat_ofNat]
  omega

theorem tcParam_of_bytes {hc : HostCode} {h : Hart} {offset j : Nat} {indicator : Indicator}
    {w : Word}
    (hbytes : ∀ i, i < 4 → h.translationCache
      (offset + hc.blockSize indicator - 4 * indicator.nrParams + 4 * j + i) =
        .data (BitVec.ofNat 8 (w.toNat / 256 ^ i))) :
    h.tcParam hc offset indicator j = some w := by
  have h0 := hbytes 0 (by decide)
  have h1 := hbytes 1 (by decide)
  have h2 := hbytes 2 (by decide)
  have h3 := hbytes 3 (by decide)
  rw [Nat.add_zero] at h0
  unfold Hart.tcParam
  simp only [h0, h1, h2, h3]
  rw [word_of_bytes]

/-- The block of `e` stands at `offset` with its parameter words. -/
structure Installed (hc : HostCode) (e : Emitted) (pc : Word) (h : Hart) (offset : Nat) : Prop where
  block : ∃ unit, BlockAt hc h offset pc e.indicator unit
  params : ∀ j w, e.params[j]? = some w → h.tcParam hc offset e.indicator j = some w

/-- Committing a translation installs it at the end of the cache. -/
theorem installed_of_committed {hc : HostCode} {e : Emitted} {pc : Word} {h h' : Hart}
    (hwf : WellFormed e) (hcommit : Committed hc e pc h h')
    (hfresh : ∀ item ∈ h.pcMappings, item.guestPc ≠ pc) :
    Installed hc e pc h' h.translationCachePtr := by
  refine ⟨⟨_, (appended_of_committed hwf hcommit hfresh).block⟩, fun j w hw => ?_⟩
  obtain ⟨hj, rfl⟩ := List.getElem?_eq_some_iff.mp hw
  obtain ⟨added, item, hadd, hsearch, rfl⟩ := hcommit
  have hoffset := tcOffset_of_fresh hadd hsearch hfresh
  have hsize := hc.params_lt e.indicator
  apply tcParam_of_bytes
  intro i hi
  rw [hoffset, hwf.1]
  exact writeParams_word _ _ _ hj hi

/-! ## Refinement -/

/-- The part of a hart the instruction set talks about. -/
def isaState (h : Hart) : State where
  registers := h.registers
  pc := h.pc

def withIsaState (h : Hart) (s : State) : Hart :=
  { h with registers := s.registers, pc := s.pc }

theorem registers_reset {h : Hart} (hzero : h.registers 0 = 0) (rd : RegIndex) (value : Word) :
    ((h.setReg rd value).setReg 0 0).registers = (isaState h).write rd value := by
  simp only [Hart.setReg, State.write, isaState]
  by_cases hrd : rd = 0
  · subst hrd
    rw [if_pos rfl, Function.update_idem]
    exact Function.update_eq_self_iff.mpr hzero.symm
  · have hkept : Function.update h.registers rd value 0 = 0 := by
      rw [Function.update_of_ne (Ne.symm hrd), hzero]
    rw [if_neg hrd]
    exact Function.update_eq_self_iff.mpr hkept.symm

theorem retired_eq {h : Hart} (hzero : h.registers 0 = 0) (rd : RegIndex) (value : Word) :
    retired h rd value = withIsaState h ((isaState h).writeNext rd value) := by
  have hregs := registers_reset hzero rd value
  unfold retired withIsaState State.writeNext
  rw [← hregs]
  rfl

theorem jumped_eq {h : Hart} (hzero : h.registers 0 = 0) (rd : RegIndex) (link target : Word) :
    jumped h rd link target = withIsaState h ⟨(isaState h).write rd link, target⟩ := by
  have hregs := registers_reset hzero rd link
  unfold jumped withIsaState
  rw [← hregs]
  rfl

/-- `param` holds the words the translator wrote. -/
def ParamsOf (param : Nat → Word) (e : Emitted) : Prop :=
  ∀ j w, e.params[j]? = some w → param j = w

section Refinement

variable {hc : HostCode} {param : Nat → Word} {c : Cpu} {vm : Vm}

variable (hready : Ready hc c) (hzero : vm.hart.registers 0 = 0)

include hready hzero

theorem runsTo_immediate {pc : Word} (op : ImmOp) (rd rs1 : RegIndex) (imm : BitVec 12)
    (hparams : ParamsOf param (emitted pc (.opImm op rd rs1 imm))) :
    RunsTo hc param (templateBody (immIndicator op)) c vm (withIsaState vm.hart
      ((isaState vm.hart).writeNext rd
        (op.eval (vm.hart.registers rs1) (imm.signExtend 32)))) := by
  have h0 : param 0 = imm.signExtend 32 := hparams 0 _ rfl
  have h1 : param 1 = indexParam rs1 := hparams 1 _ rfl
  have h2 : param 2 = indexParam rd := hparams 2 _ rfl
  rw [← retired_eq hzero, ← h0]
  cases op with
  | addi => exact runsTo_addi hready h1 h2
  | slti =>
      simp only [ImmOp.eval, ← holds_l]
      exact runsTo_compareImmediateOp hready h1 h2 .l
  | sltiu => exact runsTo_compareImmediateOp hready h1 h2 .b
  | xori => exact runsTo_logicalImmediateOp hready h1 h2 .xor
  | ori => exact runsTo_logicalImmediateOp hready h1 h2 .or
  | andi => exact runsTo_logicalImmediateOp hready h1 h2 .and

theorem runsTo_shiftImmediate {pc : Word} (op : ShiftOp) (rd rs1 : RegIndex) (shamt : BitVec 5)
    (hparams : ParamsOf param (emitted pc (.shiftImm op rd rs1 shamt))) :
    RunsTo hc param (templateBody (shiftImmIndicator op)) c vm (withIsaState vm.hart
      ((isaState vm.hart).writeNext rd (op.eval (vm.hart.registers rs1) shamt))) := by
  have h0 : param 0 = (op.funct7 ++ shamt).setWidth 32 := hparams 0 _ rfl
  have h1 : param 1 = indexParam rs1 := hparams 1 _ rfl
  have h2 : param 2 = indexParam rd := hparams 2 _ rfl
  -- the template shifts by the low five bits of the immediate
  have hcount : shamt = (param 0).setWidth 5 := by
    have hlt := shamt.isLt
    apply BitVec.eq_of_toNat_eq
    rw [h0, BitVec.toNat_setWidth, BitVec.toNat_setWidth, Zelda.Lib.Bits.toNat_append]
    omega
  rw [← retired_eq hzero, hcount]
  cases op with
  | sll => exact runsTo_shiftImmediateOp hready h1 h2 .shl
  | srl => exact runsTo_shiftImmediateOp hready h1 h2 .shr
  | sra => exact runsTo_shiftImmediateOp hready h1 h2 .sar

theorem runsTo_register {pc : Word} (op : RegOp) (rd rs1 rs2 : RegIndex)
    (hparams : ParamsOf param (emitted pc (.opReg op rd rs1 rs2))) :
    RunsTo hc param (templateBody (regIndicator op)) c vm (withIsaState vm.hart
      ((isaState vm.hart).writeNext rd
        (op.eval (vm.hart.registers rs1) (vm.hart.registers rs2)))) := by
  have h0 : param 0 = indexParam rs1 := hparams 0 _ rfl
  have h1 : param 1 = indexParam rs2 := hparams 1 _ rfl
  have h2 : param 2 = indexParam rd := hparams 2 _ rfl
  rw [← retired_eq hzero]
  cases op with
  | add =>
      simp only [RegOp.eval]
      rw [BitVec.add_comm]
      exact runsTo_commutativeOp hready h0 h1 h2 .add
  | sub => exact runsTo_sub hready h0 h1 h2
  | slt =>
      simp only [RegOp.eval, ← holds_l]
      exact runsTo_compareOp hready h0 h1 h2 .l
  | sltu => exact runsTo_compareOp hready h0 h1 h2 .b
  | xor =>
      simp only [RegOp.eval]
      rw [BitVec.xor_comm]
      exact runsTo_commutativeOp hready h0 h1 h2 .xor
  | or =>
      simp only [RegOp.eval]
      rw [BitVec.or_comm]
      exact runsTo_commutativeOp hready h0 h1 h2 .or
  | and =>
      simp only [RegOp.eval]
      rw [BitVec.and_comm]
      exact runsTo_commutativeOp hready h0 h1 h2 .and
  | shift op =>
      cases op with
      | sll => exact runsTo_shiftOp hready h0 h1 h2 .shl
      | srl => exact runsTo_shiftOp hready h0 h1 h2 .shr
      | sra => exact runsTo_shiftOp hready h0 h1 h2 .sar

omit hzero in
theorem runsTo_branchTemplate (op : BranchOp) {rs1 rs2 : RegIndex}
    (h0 : param 0 = indexParam rs1) (h1 : param 1 = indexParam rs2) :
    RunsTo hc param (templateBody (branchIndicator op)) c vm
      { vm.hart with
        pc := if op.taken (vm.hart.registers rs1) (vm.hart.registers rs2) then param 2
          else vm.hart.pc + 4 } := by
  have hforward : ∀ c' : Cpu, c'.get32 .rsi = vm.hart.registers rs1 →
      c'.get32 .rdi = vm.hart.registers rs2 →
      Flags.ofSub (c'.get32 .rsi) (c'.get32 .rdi) =
        Flags.ofSub (vm.hart.registers rs1) (vm.hart.registers rs2) := by
    intro c' hrsi hrdi
    rw [hrsi, hrdi]
  have hbackward : ∀ c' : Cpu, c'.get32 .rsi = vm.hart.registers rs1 →
      c'.get32 .rdi = vm.hart.registers rs2 →
      Flags.ofSub (c'.get32 .rdi) (c'.get32 .rsi) =
        Flags.ofSub (vm.hart.registers rs2) (vm.hart.registers rs1) := by
    intro c' hrsi hrdi
    rw [hrsi, hrdi]
  cases op with
  | beq =>
      refine runsTo_branch_of_taken hready h0 h1 hbackward .ne ?_
      rw [BranchOp.taken, BEq.comm, ← holds_e]
      rfl
  | bne =>
      refine runsTo_branch_of_taken hready h0 h1 hbackward .e ?_
      rw [BranchOp.taken, holds_e, bne, Bool.not_not, BEq.comm]
  | blt =>
      refine runsTo_branch_of_taken hready h0 h1 hforward .ge ?_
      rw [BranchOp.taken, ← holds_l]
      exact holds_ge _
  | bge =>
      refine runsTo_branch_of_taken hready h0 h1 hforward .l ?_
      rw [BranchOp.taken, Bool.not_not, holds_l]
  | bltu => exact runsTo_branch_of_taken hready h0 h1 hforward .ae rfl
  | bgeu =>
      refine runsTo_branch_of_taken hready h0 h1 hforward .b ?_
      rw [BranchOp.taken, Bool.not_not]
      rfl

omit hzero in
theorem runsTo_branch {pc : Word} (op : BranchOp) (rs1 rs2 : RegIndex) (offset : BitVec 12)
    (hparams : ParamsOf param (emitted pc (.branch op rs1 rs2 offset))) :
    RunsTo hc param (templateBody (branchIndicator op)) c vm
      { vm.hart with
        pc := if op.taken (vm.hart.registers rs1) (vm.hart.registers rs2) then
            pc + (offset ++ 0#1).signExtend 32
          else vm.hart.pc + 4 } := by
  have h2 : param 2 = pc + (offset ++ 0#1).signExtend 32 := hparams 2 _ rfl
  rw [← h2]
  exact runsTo_branchTemplate hready op (hparams 0 _ rfl) (hparams 1 _ rfl)

/-- The template of an instruction does what the instruction does. -/
theorem runsTo_instr (i : Instr) {next : State} (hstep : i.step (isaState vm.hart) = some next)
    (hparams : ParamsOf param (emitted vm.hart.pc i)) :
    RunsTo hc param (templateBody (emitted vm.hart.pc i).indicator) c vm
      (withIsaState vm.hart next) := by
  cases i with
  | lui rd imm =>
      have h0 : param 0 = imm.setWidth 32 := hparams 0 _ rfl
      have h1 : param 1 = indexParam rd := hparams 1 _ rfl
      obtain rfl := Option.some.inj hstep
      rw [← retired_eq hzero, ← upperImmediate_eq, ← h0]
      exact runsTo_lui hready h1
  | auipc rd imm =>
      have h0 : param 0 = imm.setWidth 32 := hparams 0 _ rfl
      have h1 : param 1 = indexParam rd := hparams 1 _ rfl
      have h2 : param 2 = vm.hart.pc := hparams 2 _ rfl
      obtain rfl := Option.some.inj hstep
      rw [← retired_eq hzero, ← upperImmediate_eq, ← h0, BitVec.add_comm]
      have hrun : RunsTo hc param (templateBody .auipc) c vm _ := runsTo_auipc hready h1
      rw [h2] at hrun
      exact hrun
  | opImm op rd rs1 imm =>
      obtain rfl := Option.some.inj hstep
      exact runsTo_immediate hready hzero op rd rs1 imm hparams
  | shiftImm op rd rs1 shamt =>
      obtain rfl := Option.some.inj hstep
      exact runsTo_shiftImmediate hready hzero op rd rs1 shamt hparams
  | opReg op rd rs1 rs2 =>
      obtain rfl := Option.some.inj hstep
      exact runsTo_register hready hzero op rd rs1 rs2 hparams
  | branch op rs1 rs2 offset =>
      have hrun : RunsTo hc param (templateBody (branchIndicator op)) c vm _ :=
        runsTo_branch hready op rs1 rs2 offset hparams
      rw [Instr.step] at hstep
      split at hstep
      · rename_i htaken
        obtain ⟨-, rfl⟩ := jumpTo_eq_some hstep
        have htaken' : op.taken (vm.hart.registers rs1) (vm.hart.registers rs2) = true := htaken
        rw [if_pos htaken'] at hrun
        exact hrun
      · rename_i htaken
        obtain rfl := Option.some.inj hstep
        have htaken' : ¬op.taken (vm.hart.registers rs1) (vm.hart.registers rs2) = true := htaken
        rw [if_neg htaken'] at hrun
        exact hrun
  | jal rd offset =>
      have h0 : param 0 = indexParam rd := hparams 0 _ rfl
      have h1 : param 1 = vm.hart.pc + 4 := hparams 1 _ rfl
      have h2 : param 2 = vm.hart.pc + (offset ++ 0#1).signExtend 32 := hparams 2 _ rfl
      obtain ⟨-, rfl⟩ := jumpTo_eq_some hstep
      have hrun : RunsTo hc param (templateBody .jal) c vm _ := runsTo_jal hready h0
      rw [jumped_eq hzero, h1, h2] at hrun
      exact hrun
  | jalr rd rs1 imm =>
      have h0 : param 0 = indexParam rd := hparams 0 _ rfl
      have h1 : param 1 = vm.hart.pc + 4 := hparams 1 _ rfl
      have h2 : param 2 = indexParam rs1 := hparams 2 _ rfl
      have h3 : param 3 = imm.signExtend 32 := hparams 3 _ rfl
      obtain ⟨-, rfl⟩ := jumpTo_eq_some hstep
      have hrun : RunsTo hc param (templateBody .jalr) c vm _ := runsTo_jalr hready h0 h2
      rw [jumped_eq hzero, h1, h3] at hrun
      exact hrun

end Refinement

/-- The parameters a block in the cache reads. -/
def cacheParams (hc : HostCode) (h : Hart) (offset : Nat) (indicator : Indicator) (j : Nat) : Word :=
  (h.tcParam hc offset indicator j).getD 0

theorem Installed.paramsOf {hc : HostCode} {e : Emitted} {pc : Word} {h : Hart} {offset : Nat}
    (hinstalled : Installed hc e pc h offset) :
    ParamsOf (cacheParams hc h offset e.indicator) e := by
  intro j w hw
  rw [cacheParams, hinstalled.params j w hw, Option.getD_some]

theorem runBlock_of_runsTo {hc : HostCode} {param : Nat → Word} {indicator : Indicator} {c : Cpu}
    {vm : Vm} {h : Hart} (hready : Ready hc c)
    (hbody : ∀ c', Ready hc c' → RunsTo hc param (templateBody indicator) c' vm h) :
    ∃ r, runBlock hc indicator param c vm = .ok r { vm with hart := h } := by
  have hwp := runBlock_wp hready hbody
  unfold Wp at hwp
  cases hrun : runBlock hc indicator param c vm with
  | ok r t =>
      rw [hrun] at hwp
      exact ⟨r, congrArg _ hwp⟩
  | error e t =>
      rw [hrun] at hwp
      exact hwp.elim

/--
Every instruction is translated, its translation is installed where the cache
ends, and running the installed block from a state with `x0 = 0` and the pc at
the instruction gives the registers and the pc of the instruction set, with
everything else as it was.
-/
theorem translated_instr_refines (hc : HostCode) (i : Instr) (pc : Word) :
    ∃ e, Vmm.translate i.encode pc = some e ∧
      (∀ h h' : Hart, (∀ item ∈ h.pcMappings, item.guestPc ≠ pc) → Committed hc e pc h h' →
        Installed hc e pc h' h.translationCachePtr) ∧
      ∀ (vm : Vm) (offset : Nat) (c : Cpu) (next : State),
        Installed hc e pc vm.hart offset → Ready hc c → vm.hart.pc = pc →
        vm.hart.registers 0 = 0 → i.step (isaState vm.hart) = some next →
        ∃ r, runBlock hc e.indicator (cacheParams hc vm.hart offset e.indicator) c vm =
          .ok r { vm with hart := withIsaState vm.hart next } := by
  have htranslate := translate_encode i pc
  refine ⟨emitted pc i, htranslate, ?_, ?_⟩
  · intro h h' hfresh hcommit
    exact installed_of_committed (wellFormed_translate htranslate) hcommit hfresh
  · rintro vm offset c next hinstalled hready rfl hzero hstep
    apply runBlock_of_runsTo hready
    intro c' hready'
    exact runsTo_instr hready' hzero i hstep hinstalled.paramsOf

/-- A machine whose empty cache takes a translation. -/
theorem exists_installed {hc : HostCode} {e : Emitted} {pc : Word} {vm : Vm} (hwf : WellFormed e)
    (hempty : vm.hart.pcMappings = [])
    (hok : isOk (commitTranslation hc pc e.indicator e.params vm) = true) :
    ∃ h', Installed hc e pc h' vm.hart.translationCachePtr ∧
      h'.registers = vm.hart.registers ∧ h'.pc = vm.hart.pc := by
  obtain ⟨_, hcommitted⟩ := eq_ok_of_isOk hok
  have hframe := commitTranslation_frame hc e pc vm
  rw [Wp, hcommitted] at hframe
  obtain ⟨h', hcommit, -⟩ := hframe
  have hfresh : ∀ item ∈ vm.hart.pcMappings, item.guestPc ≠ pc := by
    rw [hempty]
    exact fun _ hmem => absurd hmem List.not_mem_nil
  refine ⟨h', installed_of_committed hwf hcommit hfresh, ?_, ?_⟩
  · rw [hcommit.frame]
  · rw [hcommit.frame]

/-- `addi x1, x0, 5` at the reset pc. -/
theorem translated_instr_refines_addi :
    ∃ vm offset r t,
      runBlock evenHostCode .addi (cacheParams evenHostCode vm.hart offset .addi)
        (entryCpu evenHostCode) vm = .ok r t ∧
      t.hart.registers 1 = 5 ∧ t.hart.pc = 0x4004 := by
  obtain ⟨e, htranslate, -, hrun⟩ :=
    translated_instr_refines evenHostCode (.opImm .addi 1 0 5) 0x4000
  obtain rfl : emitted 0x4000 (.opImm .addi 1 0 5) = e :=
    Option.some.inj ((translate_encode _ _).symm.trans htranslate)
  set vm₀ := virtualMachineInit (fun _ => 0) fun _ => 0
  have hok : isOk (commitTranslation evenHostCode 0x4000 Indicator.addi
      (emitted 0x4000 (.opImm .addi 1 0 5)).params vm₀) = true := by
    decide +kernel
  obtain ⟨h', hinstalled, hregs, hpc⟩ :=
    exists_installed (wellFormed_translate htranslate) rfl hok
  have hstate : isaState h' = ⟨fun _ => 0, 0x4000⟩ := by
    rw [isaState, hregs, hpc]
    rfl
  obtain ⟨r, hran⟩ := hrun { vm₀ with hart := h' } _ (entryCpu evenHostCode) _ hinstalled
    (ready_entryCpu _) hpc (by rw [hregs]; rfl) (by rw [hstate]; rfl)
  exact ⟨_, _, r, _, hran, rfl, rfl⟩

end Zelda.Proofs.Instructions
