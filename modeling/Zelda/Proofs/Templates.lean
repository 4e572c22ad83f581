import Zelda.Lib.X86Rules
import Zelda.Vmm.Translation
/-!
# The pieces of a template

What the shared pieces of the code templates do on a hart: finding a guest
register by its index parameter, loading it, retiring a result, and calling
the vmm with the context registers saved.
-/

namespace Zelda.Proofs.Templates

open Zelda.Vmm
open Zelda.Lib.Effect
open Zelda.Lib.X86

/-! ## Addresses in the hart -/

theorem toNat_index_shift (index : RegIndex) :
    ((indexParam index <<< 2).setWidth 64).toNat = 4 * index.toNat := by
  have hlt := index.isLt
  simp only [indexParam, BitVec.toNat_setWidth, BitVec.toNat_shiftLeft, Nat.shiftLeft_eq]
  omega

theorem hartSlot_register (hc : HostCode) (index : RegIndex) :
    hartSlot hc ((indexParam index <<< 2).setWidth 64 + hc.hartBase) = some (.register index) := by
  have hlt := index.isLt
  unfold hartSlot
  rw [BitVec.add_sub_cancel, toNat_index_shift]
  rw [if_neg (by omega), if_pos (by omega), Nat.mul_div_cancel_left _ (by decide),
    BitVec.ofNat_toNat, BitVec.setWidth_eq]

theorem hartSlot_zero (hc : HostCode) : hartSlot hc hc.hartBase = some (.register 0) := by
  unfold hartSlot
  rw [BitVec.sub_self]
  rfl

theorem hartSlot_pc (hc : HostCode) : hartSlot hc (hc.hartBase + 128) = some .pc := by
  unfold hartSlot
  rw [BitVec.add_comm, BitVec.add_sub_cancel]
  rfl

/-! ## The context registers -/

/-- The registers that lead to the hart, as `vmresume` sets them. -/
structure Ready (hc : HostCode) (c : Cpu) : Prop where
  r12 : c.r12 = hc.hartBase
  r14 : c.r14 = hc.hartBase + 128
  r15 : c.r15 = hc.hartBase

/-- A register that blocks use freely. -/
def Reg.isScratch : Reg → Bool
  | .r12 | .r13 | .r14 | .r15 => false
  | _ => true

theorem ready_entryCpu (hc : HostCode) : Ready hc (entryCpu hc) := ⟨rfl, rfl, rfl⟩

theorem Ready.set {hc : HostCode} {c : Cpu} (h : Ready hc c) {r : Reg}
    (hr : Reg.isScratch r = true) (v : BitVec 64) : Ready hc (c.set r v) := by
  cases r with
  | r12 | r13 | r14 | r15 => cases hr
  | rax | rbx | rcx | rdx | rsi | rdi | r8 => exact ⟨h.r12, h.r14, h.r15⟩

theorem Ready.noFlags {hc : HostCode} {c : Cpu} (h : Ready hc c) : Ready hc c.noFlags :=
  ⟨h.r12, h.r14, h.r15⟩

theorem Ready.setFlags {hc : HostCode} {c : Cpu} (h : Ready hc c) (flags : Option Flags) :
    Ready hc { c with flags := flags } :=
  ⟨h.r12, h.r14, h.r15⟩

/-- Every register outside the list is as it was. -/
def SameBut (rs : List Reg) (c c' : Cpu) : Prop :=
  ∀ r, r ∉ rs → c'.get r = c.get r

theorem SameBut.get32 {rs : List Reg} {c c' : Cpu} (h : SameBut rs c c') {r : Reg} (hr : r ∉ rs) :
    c'.get32 r = c.get32 r := by
  rw [Cpu.get32, Cpu.get32, h r hr]

/-! ## Register access -/

section Pieces

variable {hc : HostCode} {param : Nat → Word} {rest : Code} {c : Cpu} {vm : Vm}
variable {Q : End × Cpu → Vm → Prop} {E : Abort → Vm → Prop}

/-- `guestRegAddress` leaves the address of the register. -/
theorem execWp_guestRegAddress {k : Nat} {index : RegIndex} {r : Reg} (hready : Ready hc c)
    (hparam : param k = indexParam index) (hr : Reg.isScratch r = true)
    (h : ∀ c', Ready hc c' → hartSlot hc (c'.get r) = some (.register index) →
      SameBut [r] c c' → ExecWp (hostEnv hc) param rest c' Q E vm) :
    ExecWp (hostEnv hc) param (guestRegAddress k r ++ rest) c Q E vm := by
  simp only [guestRegAddress, List.cons_append, List.nil_append, execWp_movl, execWp_shiftImm,
    execWp_addq, Operand.value, hparam, get32_set32_self, Shift.apply]
  set c₁ := c.set32 r (indexParam index)
  set c₂ := (c₁.set32 r (indexParam index <<< 2)).noFlags
  have hready₂ : Ready hc c₂ := ((hready.set hr _).set hr _).noFlags
  have hsame₂ : ∀ r', r' ≠ r → c₂.get r' = c.get r' := by
    intro r' hne
    rw [get_noFlags, get_set32_of_ne _ hne, get_set32_of_ne _ hne]
  refine h _ (hready₂.set hr _).noFlags ?_ ?_
  · have hbase : c₂.get .r15 = hc.hartBase := hready₂.r15
    rw [get_noFlags, get_set_self, hbase, get_noFlags, Cpu.set32, get_set_self]
    exact hartSlot_register hc index
  · intro r' hnot
    have hne : r' ≠ r := fun heq => hnot (by rw [heq]; exact List.mem_singleton_self r)
    rw [get_noFlags, get_set_of_ne _ hne, hsame₂ r' hne]

/-- Load the register whose index is parameter `k` through the scratch register `via`. -/
theorem execWp_loadThrough {k : Nat} {index : RegIndex} {via dst : Reg} (hready : Ready hc c)
    (hparam : param k = indexParam index) (hvia : Reg.isScratch via = true)
    (hdst : Reg.isScratch dst = true)
    (h : ∀ c', Ready hc c' → c'.get dst = (vm.hart.registers index).setWidth 64 →
      SameBut [via, dst] c c' → ExecWp (hostEnv hc) param rest c' Q E vm) :
    ExecWp (hostEnv hc) param (guestRegAddress k via ++ (.movlLoad via dst :: rest)) c Q E vm := by
  refine execWp_guestRegAddress hready hparam hvia fun c' hready' hslot hsame => ?_
  have hload : (hostEnv hc).load32 (c'.get via) vm = some (vm.hart.registers index) := by
    simp only [hostEnv, hslot]
    rfl
  rw [execWp_movlLoad hload]
  refine h _ (hready'.set hdst _) (get_set_self _ _ _) fun r hnot => ?_
  simp only [List.mem_cons, List.not_mem_nil, or_false, not_or] at hnot
  rw [get_set32_of_ne _ hnot.2]
  exact hsame r (by simpa using hnot.1)

theorem execWp_loadGuestReg {k : Nat} {index : RegIndex} {dst : Reg} (hready : Ready hc c)
    (hparam : param k = indexParam index) (hdst : Reg.isScratch dst = true)
    (h : ∀ c', Ready hc c' → c'.get32 dst = vm.hart.registers index →
      SameBut [.rdx, dst] c c' → ExecWp (hostEnv hc) param rest c' Q E vm) :
    ExecWp (hostEnv hc) param (loadGuestReg k dst ++ rest) c Q E vm := by
  rw [loadGuestReg, List.append_assoc]
  refine execWp_loadThrough hready hparam rfl hdst fun c' hready' hvalue hsame => ?_
  exact h c' hready' (get32_of_get hvalue) hsame

theorem execWp_loadOperand {k : Nat} {index : RegIndex} {dst : Reg} (hready : Ready hc c)
    (hparam : param k = indexParam index) (hdst : Reg.isScratch dst = true)
    (h : ∀ c', Ready hc c' → c'.get dst = (vm.hart.registers index).setWidth 64 →
      SameBut [.rsi, dst] c c' → ExecWp (hostEnv hc) param rest c' Q E vm) :
    ExecWp (hostEnv hc) param (loadOperand k dst ++ rest) c Q E vm := by
  rw [loadOperand, List.append_assoc]
  exact execWp_loadThrough hready hparam rfl hdst h

/-- A store through the address of a register. -/
theorem execWp_storeReg {src : Reg} {addr : Reg} {index : RegIndex}
    (hslot : hartSlot hc (c.get addr) = some (.register index)) :
    ExecWp (hostEnv hc) param (.movlStore (.reg src) addr :: rest) c Q E vm ↔
      ExecWp (hostEnv hc) param rest c Q E
        { vm with hart := vm.hart.setReg index (c.get32 src) } := by
  apply execWp_movlStore
  simp only [hostEnv, hslot]
  rfl

/-- `RESET_ZERO_REGISTER()`. -/
theorem execWp_resetZeroRegister (hready : Ready hc c) :
    ExecWp (hostEnv hc) param (resetZeroRegister ++ rest) c Q E vm ↔
      ExecWp (hostEnv hc) param rest c Q E { vm with hart := vm.hart.setReg 0 0 } := by
  have haddr : c.get .r15 = hc.hartBase := hready.r15
  apply execWp_movlStore
  simp only [hostEnv, haddr, hartSlot_zero]
  rfl

/-- `PROCEED_TO_NEXT_INSTRUCTION()`. -/
theorem execWp_proceedToNextInstruction (hready : Ready hc c) :
    ExecWp (hostEnv hc) param (proceedToNextInstruction ++ rest) c Q E vm ↔
      ExecWp (hostEnv hc) param rest c.noFlags Q E
        { vm with hart := { vm.hart with pc := vm.hart.pc + 4 } } := by
  have haddr : c.get .r14 = hc.hartBase + 128 := hready.r14
  have hload : (hostEnv hc).load32 (c.get .r14) vm = some vm.hart.pc := by
    simp only [hostEnv, haddr, hartSlot_pc]
    rfl
  refine execWp_addlStore hload ?_
  simp only [hostEnv, haddr, hartSlot_pc]
  rfl

/-- A store of the next pc. -/
theorem execWp_storePc {src : Reg} (hready : Ready hc c) :
    ExecWp (hostEnv hc) param (.movlStore (.reg src) .r14 :: rest) c Q E vm ↔
      ExecWp (hostEnv hc) param rest c Q E
        { vm with hart := { vm.hart with pc := c.get32 src } } := by
  have haddr : c.get .r14 = hc.hartBase + 128 := hready.r14
  apply execWp_movlStore
  simp only [hostEnv, haddr, hartSlot_pc]
  rfl

theorem execWp_loadPc {dst : Reg} (hready : Ready hc c) :
    ExecWp (hostEnv hc) param (.movlLoad .r14 dst :: rest) c Q E vm ↔
      ExecWp (hostEnv hc) param rest (c.set32 dst vm.hart.pc) Q E vm := by
  have haddr : c.get .r14 = hc.hartBase + 128 := hready.r14
  apply execWp_movlLoad
  simp only [hostEnv, haddr, hartSlot_pc]
  rfl

/-- The hart after an instruction that writes `value` to `rd` and goes on. -/
def retired (h : Hart) (rd : RegIndex) (value : Word) : Hart :=
  { (h.setReg rd value).setReg 0 0 with pc := h.pc + 4 }

/-- Write the result through the scratch register `via` and advance the pc. -/
theorem execWp_retireThrough {k : Nat} {rd : RegIndex} {via src : Reg} {value : Word}
    (hready : Ready hc c) (hparam : param k = indexParam rd) (hvia : Reg.isScratch via = true)
    (hsrc : src ≠ via) (hvalue : c.get32 src = value)
    (h : ∀ c', Q (.fallThrough, c') { vm with hart := retired vm.hart rd value }) :
    ExecWp (hostEnv hc) param
      (guestRegAddress k via ++ (.movlStore (.reg src) via :: (resetZeroRegister ++
        (proceedToNextInstruction ++ endInstruction)))) c Q E vm := by
  refine execWp_guestRegAddress hready hparam hvia fun c' hready' hslot hsame => ?_
  rw [execWp_storeReg hslot, execWp_resetZeroRegister hready',
    execWp_proceedToNextInstruction hready', endInstruction, execWp_jmpEnd,
    hsame.get32 (by simpa using hsrc), hvalue]
  exact h _

theorem execWp_retire {k : Nat} {rd : RegIndex} {src : Reg} {value : Word} (hready : Ready hc c)
    (hparam : param k = indexParam rd) (hsrc : src ≠ .rdx) (hvalue : c.get32 src = value)
    (h : ∀ c', Q (.fallThrough, c') { vm with hart := retired vm.hart rd value }) :
    ExecWp (hostEnv hc) param (retire k src) c Q E vm := by
  unfold retire
  simp only [List.append_assoc]
  exact execWp_retireThrough hready hparam rfl hsrc hvalue h

theorem execWp_retireResult {rd : RegIndex} {src : Reg} {value : Word} (hready : Ready hc c)
    (hparam : param 2 = indexParam rd) (hsrc : src ≠ .rdi) (hvalue : c.get32 src = value)
    (h : ∀ c', Q (.fallThrough, c') { vm with hart := retired vm.hart rd value }) :
    ExecWp (hostEnv hc) param (retireResult src) c Q E vm := by
  unfold retireResult
  simp only [List.append_assoc]
  exact execWp_retireThrough hready hparam rfl hsrc hvalue h

/-! ## Calls -/

theorem wp_iff {α : Type} {m : VmM α} {P P' : α → Vm → Prop} (h : ∀ a t, P a t ↔ P' a t) :
    Wp m P E vm ↔ Wp m P' E vm :=
  ⟨fun hm => wp_mono hm (fun a t => (h a t).mp) fun _ _ he => he,
    fun hm => wp_mono hm (fun a t => (h a t).mpr) fun _ _ he => he⟩

/-- The registers a callee is entered with. -/
def pushed (c : Cpu) : Cpu :=
  { c with stack := c.r12 :: c.r13 :: c.r14 :: c.r15 :: c.stack }

/-- A call with the context registers saved around it. -/
theorem execWp_callVmm (f : VmmFn) :
    ExecWp (hostEnv hc) param (callVmm f ++ rest) c Q E vm ↔
      Wp (callVmmFn hc f (pushed c))
        (fun result t => ExecWp (hostEnv hc) param rest
          (c.afterCall (hc.clobber f (pushed c)) result) Q E t) E vm := by
  simp only [callVmm, saveGuestContextSwitchRegs, restoreGuestContextSwitchRegs,
    List.cons_append, List.nil_append, execWp_pushq, execWp_call]
  refine wp_iff fun result t => ?_
  rw [execWp_popq rfl, execWp_popq rfl, execWp_popq rfl, execWp_popq rfl]
  rfl

theorem Ready.afterCall (hready : Ready hc c) (clobber : Reg → BitVec 64) (result : BitVec 64) :
    Ready hc (c.afterCall clobber result) :=
  ⟨hready.r12, hready.r14, hready.r15⟩

/-- `BEGIN_TRANSLATION` leaves the hart and the context registers alone. -/
theorem execWp_beginTranslation (hready : Ready hc c)
    (h : ∀ c', Ready hc c' → ExecWp (hostEnv hc) param rest c' Q E vm) :
    ExecWp (hostEnv hc) param (beginTranslation ++ rest) c Q E vm := by
  simp only [beginTranslation, List.cons_append, List.nil_append, execWp_movq, execWp_movqImm,
    execWp_callVmm]
  have hrdi : (pushed ((c.set .rdi (c.get .r12)).set .rsi 1)).rdi = hc.hartBase := hready.r12
  unfold callVmmFn
  rw [if_neg (not_not.mpr hrdi)]
  exact h _ (((hready.set rfl _).set rfl _).afterCall _ _)

/-- A whole block, past its prologue. -/
theorem runBlock_wp {indicator : Indicator} (hready : Ready hc c)
    (h : ∀ c', Ready hc c' →
      ExecWp (hostEnv hc) param (templateBody indicator) c' Q E vm) :
    Wp (runBlock hc indicator param c) Q E vm :=
  execWp_beginTranslation hready h

end Pieces

end Zelda.Proofs.Templates
