import Zelda.Proofs.Decode
import Zelda.Proofs.Templates
/-!
# Loads, stores and atomic operations as blocks

A memory block makes one call into the vmm.  Its effect is the effect of that
call, followed by the write of the destination register where there is one.
-/

namespace Zelda.Isa

open Zelda.Vmm

def LoadOp.size : LoadOp → AccessSize
  | .lb | .lbu => .b1
  | .lh | .lhu => .b2
  | .lw => .b4

/-- What the destination register gets from the bytes read. -/
def LoadOp.widen (value : DWord) : LoadOp → Word
  | .lb => (value.setWidth 8).signExtend 32
  | .lh => (value.setWidth 16).signExtend 32
  | .lw => value.setWidth 32
  | .lbu => (value.setWidth 8).setWidth 32
  | .lhu => (value.setWidth 16).setWidth 32

def StoreOp.size : StoreOp → AccessSize
  | .sb => .b1
  | .sh => .b2
  | .sw => .b4

/-- What is stored of the source register. -/
def StoreOp.narrow (value : Word) : StoreOp → DWord
  | .sb => (value.setWidth 8).setWidth 64
  | .sh => (value.setWidth 16).setWidth 64
  | .sw => value.setWidth 64

end Zelda.Isa

namespace Zelda.Proofs.MemoryTemplates

open Zelda.Vmm
open Zelda.Isa (LoadOp StoreOp)
open Zelda.Lib.Effect
open Zelda.Lib.X86
open Zelda.Proofs.Decode (loadIndicator storeIndicator)
open Zelda.Proofs.Templates

/-! ## Results of narrow callees -/

theorem setWidth_narrowResult (junk value : DWord) {bits w : Nat} (hbits : bits ≤ 64)
    (hw : w ≤ bits) : (narrowResult junk bits value).setWidth w = value.setWidth w := by
  apply BitVec.eq_of_getLsbD_eq
  intro i hi
  have hlow : i < bits := by omega
  have hmask : (BitVec.allOnes 64 >>> (64 - bits)).getLsbD i = true := by
    rw [BitVec.getLsbD_ushiftRight, BitVec.getLsbD_allOnes]
    simp
    omega
  unfold narrowResult
  rw [BitVec.getLsbD_setWidth, BitVec.getLsbD_setWidth, BitVec.getLsbD_or,
    BitVec.getLsbD_shiftLeft, BitVec.getLsbD_and, hmask]
  simp [hlow]

/-! ## Blocks -/

section Blocks

variable {hc : HostCode} {param : Nat → Word} {rest : Code} {c : Cpu} {vm : Vm}
variable {rs1 rs2 rd : RegIndex} {Q : End × Cpu → Vm → Prop} {E : Abort → Vm → Prop}

/-- `rs1 + offset` in `%esi`. -/
theorem execWp_memoryLocation (hready : Ready hc c) (h1 : param 1 = indexParam rs1)
    (h : ∀ c', Ready hc c' → c'.get32 .rsi = vm.hart.registers rs1 + param 0 →
      ExecWp (hostEnv hc) param rest c' Q E vm) :
    ExecWp (hostEnv hc) param (memoryLocation ++ rest) c Q E vm := by
  unfold memoryLocation
  simp only [List.append_assoc]
  refine execWp_loadGuestReg hready h1 rfl fun c₁ hready₁ hrs1 _ => ?_
  rw [List.cons_append, List.singleton_append, execWp_movl, execWp_alu]
  apply h
  · exact ((hready₁.set rfl _).set rfl _).noFlags
  · simp only [Operand.value, get32_noFlags, get32_set32_self]
    rw [get32_set32_of_ne _ (by decide), hrs1]
    rfl

theorem execWp_read (hready : Ready hc c) (l : LoadOp) {va : Word} {reader : VmmFn} {bits : Nat}
    (hrsi : c.get32 .rsi = va)
    (hreader : ∀ c' : Cpu, callVmmFn hc reader c' =
      if c'.rdi ≠ hc.hartBase then throw .hostFault
      else do
        let value ← vmread (c'.get32 .rsi) l.size
        pure (narrowResult (hc.clobber reader c' .rax) bits value))
    (h : Wp (vmread va l.size)
      (fun value t => ∀ c' junk, Ready hc c' → c'.rax = narrowResult junk bits value →
        ExecWp (hostEnv hc) param rest c' Q E t) E vm) :
    ExecWp (hostEnv hc) param (.movq .r12 .rdi :: (callVmm reader ++ rest)) c Q E vm := by
  have hrdi : (pushed (c.set .rdi (c.get .r12))).rdi = hc.hartBase := hready.r12
  have hrsi' : (pushed (c.set .rdi (c.get .r12))).get32 .rsi = va := hrsi
  rw [execWp_movq, execWp_callVmm, hreader, if_neg (not_not.mpr hrdi), hrsi', wp_bind]
  refine wp_mono h ?_ fun _ _ he => he
  intro value t ht
  rw [wp_pure]
  exact ht _ _ ((hready.set rfl _).afterCall _ _) rfl

/-- Store `rd` through `%rdx` and fall through. -/
theorem execWp_writeBack {value : Word} (hready : Ready hc c)
    (hslot : hartSlot hc (c.get .rdx) = some (.register rd)) (hrax : c.get32 .rax = value)
    (h : ∀ c', Q (.fallThrough, c') { vm with hart := retired vm.hart rd value }) :
    ExecWp (hostEnv hc) param
      (.movlStore (.reg .rax) .rdx :: (resetZeroRegister ++ (proceedToNextInstruction ++
        endInstruction))) c Q E vm := by
  rw [execWp_storeReg hslot, execWp_resetZeroRegister hready,
    execWp_proceedToNextInstruction hready, endInstruction, execWp_jmpEnd, hrax]
  exact h _

/-- The widening step of a load, between the call and the write of `rd`. -/
theorem execWp_widen {l : LoadOp} {bits : Nat} {value junk : DWord} {widen : Code}
    (hready : Ready hc c) (hslot : hartSlot hc (c.get .rdx) = some (.register rd))
    (hrax : c.get .rax = narrowResult junk bits value)
    (hwiden : widen = [] ∧ (narrowResult junk bits value).setWidth 32 = l.widen value ∨
      ∃ kind, widen = [.extend kind .rax] ∧
        Extend.apply (narrowResult junk bits value) kind = l.widen value)
    (h : ∀ c', Q (.fallThrough, c')
      { vm with hart := retired vm.hart rd (l.widen value) }) :
    ExecWp (hostEnv hc) param
      (widen ++ (.movlStore (.reg .rax) .rdx :: (resetZeroRegister ++
        (proceedToNextInstruction ++ endInstruction)))) c Q E vm := by
  rcases hwiden with ⟨rfl, hvalue⟩ | ⟨kind, rfl, hvalue⟩
  · refine execWp_writeBack hready hslot ?_ h
    rw [Cpu.get32, hrax, hvalue]
  · rw [List.singleton_append, execWp_extend, hrax, hvalue]
    refine execWp_writeBack (hready.set rfl _) ?_ (get32_set32_self _ _ _) h
    rw [get_set32_of_ne _ (by decide), hslot]

theorem execWp_loadOp (l : LoadOp) {reader : VmmFn} {bits : Nat} {widen : Code}
    (hready : Ready hc c) (h1 : param 1 = indexParam rs1) (h2 : param 2 = indexParam rd)
    (hreader : ∀ c' : Cpu, callVmmFn hc reader c' =
      if c'.rdi ≠ hc.hartBase then throw .hostFault
      else do
        let value ← vmread (c'.get32 .rsi) l.size
        pure (narrowResult (hc.clobber reader c' .rax) bits value))
    (hwiden : ∀ junk value,
      widen = [] ∧ (narrowResult junk bits value).setWidth 32 = l.widen value ∨
      ∃ kind, widen = [.extend kind .rax] ∧
        Extend.apply (narrowResult junk bits value) kind = l.widen value)
    (h : Wp (vmread (vm.hart.registers rs1 + param 0) l.size)
      (fun value t => ∀ c', Q (.fallThrough, c')
        { t with hart := retired t.hart rd (l.widen value) }) E vm) :
    ExecWp (hostEnv hc) param (loadOp reader widen) c Q E vm := by
  unfold loadOp
  simp only [List.append_assoc]
  refine execWp_memoryLocation hready h1 fun c₁ hready₁ hrsi => ?_
  rw [List.singleton_append]
  refine execWp_read hready₁ l hrsi hreader ?_
  refine wp_mono h ?_ fun _ _ he => he
  intro value t ht c₂ junk hready₂ hrax
  refine execWp_guestRegAddress hready₂ h2 rfl fun c₃ hready₃ hslot hsame => ?_
  refine execWp_widen hready₃ hslot ?_ (hwiden junk value) ht
  exact (hsame .rax (by decide)).trans hrax

/-- A load block reads and writes `rd`. -/
theorem execWp_load (l : LoadOp) (hready : Ready hc c) (h1 : param 1 = indexParam rs1)
    (h2 : param 2 = indexParam rd)
    (h : Wp (vmread (vm.hart.registers rs1 + param 0) l.size)
      (fun value t => ∀ c', Q (.fallThrough, c')
        { t with hart := retired t.hart rd (l.widen value) }) E vm) :
    ExecWp (hostEnv hc) param (templateBody (loadIndicator l)) c Q E vm := by
  have h8 : ∀ junk value : DWord, (narrowResult junk 8 value).setWidth 8 = value.setWidth 8 :=
    fun junk value => setWidth_narrowResult junk value (by decide) (by decide)
  have h16 : ∀ junk value : DWord, (narrowResult junk 16 value).setWidth 16 = value.setWidth 16 :=
    fun junk value => setWidth_narrowResult junk value (by decide) (by decide)
  have h32 : ∀ junk value : DWord, (narrowResult junk 32 value).setWidth 32 = value.setWidth 32 :=
    fun junk value => setWidth_narrowResult junk value (by decide) (by decide)
  cases l with
  | lb =>
      refine execWp_loadOp .lb hready h1 h2 (fun _ => rfl) (fun junk value => .inr ⟨_, rfl, ?_⟩) h
      exact congrArg (BitVec.signExtend 32) (h8 junk value)
  | lh =>
      refine execWp_loadOp .lh hready h1 h2 (fun _ => rfl) (fun junk value => .inr ⟨_, rfl, ?_⟩) h
      exact congrArg (BitVec.signExtend 32) (h16 junk value)
  | lw =>
      exact execWp_loadOp .lw hready h1 h2 (fun _ => rfl)
        (fun junk value => .inl ⟨rfl, h32 junk value⟩) h
  | lbu =>
      refine execWp_loadOp .lbu hready h1 h2 (fun _ => rfl) (fun junk value => .inr ⟨_, rfl, ?_⟩) h
      exact congrArg (BitVec.setWidth 32) (h8 junk value)
  | lhu =>
      refine execWp_loadOp .lhu hready h1 h2 (fun _ => rfl) (fun junk value => .inr ⟨_, rfl, ?_⟩) h
      exact congrArg (BitVec.setWidth 32) (h16 junk value)

/-- The hart after an instruction that only goes on. -/
def proceeded (h : Hart) : Hart :=
  { h with pc := h.pc + 4 }

theorem execWp_storeOp (st : StoreOp) {writer : VmmFn} {narrow : Code}
    (hready : Ready hc c) (h1 : param 1 = indexParam rs1) (h2 : param 2 = indexParam rs2)
    (hwriter : ∀ c' : Cpu, c'.rdi = hc.hartBase → ∃ junk, callVmmFn hc writer c' = do
      vmwrite (c'.get32 .rsi) st.size (st.narrow (c'.get32 .rdx))
      pure junk)
    (hnarrow : narrow = [] ∨ ∃ mask : Word, narrow = [.alu .and (.imm mask) .rdx] ∧
      ∀ value : Word, st.narrow (value &&& mask) = st.narrow value)
    (h : Wp (vmwrite (vm.hart.registers rs1 + param 0) st.size
        (st.narrow (vm.hart.registers rs2)))
      (fun _ t => ∀ c', Q (.fallThrough, c') { t with hart := proceeded t.hart }) E vm) :
    ExecWp (hostEnv hc) param (storeOp writer narrow) c Q E vm := by
  unfold storeOp
  simp only [List.append_assoc]
  refine execWp_memoryLocation hready h1 fun c₁ hready₁ hrsi => ?_
  refine execWp_loadGuestReg hready₁ h2 rfl fun c₂ hready₂ hrdx hsame => ?_
  have hrsi₂ : c₂.get32 .rsi = vm.hart.registers rs1 + param 0 := by
    rw [hsame.get32 (by decide), hrsi]
  -- whatever narrowing did, the callee stores the same bytes
  have hcall : ∀ c₃ : Cpu, Ready hc c₃ → c₃.get32 .rsi = vm.hart.registers rs1 + param 0 →
      st.narrow (c₃.get32 .rdx) = st.narrow (vm.hart.registers rs2) →
      ExecWp (hostEnv hc) param ([.movq .r12 .rdi] ++ (callVmm writer ++
        (proceedToNextInstruction ++ endInstruction))) c₃ Q E vm := by
    intro c₃ hready₃ hrsi₃ hrdx₃
    have hrdi : (pushed (c₃.set .rdi (c₃.get .r12))).rdi = hc.hartBase := hready₃.r12
    have hrsi₄ : (pushed (c₃.set .rdi (c₃.get .r12))).get32 .rsi = c₃.get32 .rsi := rfl
    have hrdx₄ : (pushed (c₃.set .rdi (c₃.get .r12))).get32 .rdx = c₃.get32 .rdx := rfl
    obtain ⟨junk, hwrite⟩ := hwriter _ hrdi
    rw [List.singleton_append, execWp_movq, execWp_callVmm, hwrite, hrsi₄, hrdx₄, hrsi₃, hrdx₃,
      wp_bind]
    refine wp_mono h ?_ fun _ _ he => he
    intro _ t ht
    have hready₅ := (hready₃.set (r := .rdi) rfl (c₃.get .r12)).afterCall
      (hc.clobber writer (pushed (c₃.set .rdi (c₃.get .r12)))) junk
    rw [wp_pure, execWp_proceedToNextInstruction hready₅, endInstruction, execWp_jmpEnd]
    exact ht _
  rcases hnarrow with rfl | ⟨mask, rfl, hmask⟩
  · exact hcall c₂ hready₂ hrsi₂ (by rw [hrdx])
  · rw [List.singleton_append, execWp_alu, hrdx]
    refine hcall _ (hready₂.set rfl _).noFlags ?_ ?_
    · rw [get32_noFlags, get32_set32_of_ne _ (by decide), hrsi₂]
    · rw [get32_noFlags, get32_set32_self]
      exact hmask _

theorem setWidth_and_mask (value mask : Word) {w : Nat}
    (hmask : ∀ i, i < w → mask.getLsbD i = true) :
    (value &&& mask).setWidth w = value.setWidth w := by
  apply BitVec.eq_of_getLsbD_eq
  intro i hi
  simp [hi, hmask i hi]

/-- A store block writes and goes on. -/
theorem execWp_store (st : StoreOp) (hready : Ready hc c) (h1 : param 1 = indexParam rs1)
    (h2 : param 2 = indexParam rs2)
    (h : Wp (vmwrite (vm.hart.registers rs1 + param 0) st.size
        (st.narrow (vm.hart.registers rs2)))
      (fun _ t => ∀ c', Q (.fallThrough, c') { t with hart := proceeded t.hart }) E vm) :
    ExecWp (hostEnv hc) param (templateBody (storeIndicator st)) c Q E vm := by
  have hlow : ∀ (c' : Cpu) (w : Nat), w ≤ 32 → c'.rdx.setWidth w = (c'.get32 .rdx).setWidth w :=
    fun c' w hw => (BitVec.setWidth_setWidth_of_le _ hw).symm
  cases st with
  | sb =>
      refine execWp_storeOp .sb hready h1 h2 (fun c' hrdi => ⟨hc.clobber .mmuWrite8 c' .rax, ?_⟩)
        (.inr ⟨0xff, rfl, fun value => ?_⟩) h
      · unfold callVmmFn
        rw [if_neg (not_not.mpr hrdi), hlow c' 8 (by decide)]
        rfl
      · refine congrArg (BitVec.setWidth 64) (setWidth_and_mask value 0xff ?_)
        decide
  | sh =>
      refine execWp_storeOp .sh hready h1 h2 (fun c' hrdi => ⟨hc.clobber .mmuWrite16 c' .rax, ?_⟩)
        (.inr ⟨0xffff, rfl, fun value => ?_⟩) h
      · unfold callVmmFn
        rw [if_neg (not_not.mpr hrdi), hlow c' 16 (by decide)]
        rfl
      · refine congrArg (BitVec.setWidth 64) (setWidth_and_mask value 0xffff ?_)
        decide
  | sw =>
      refine execWp_storeOp .sw hready h1 h2 (fun c' hrdi => ⟨hc.clobber .mmuWrite32 c' .rax, ?_⟩) (.inl rfl) h
      unfold callVmmFn
      rw [if_neg (not_not.mpr hrdi)]
      rfl

/-! ## Calls with no memory operand -/

/-- The callees that take nothing but the hart. -/
def hartCallee : VmmFn → Option (VmM Unit)
  | .flushTranslationCache => some (modifyHart Hart.flushTranslationCache)
  | .ebreakCallback => some ebreakCallback
  | .mretCallback => some mretCallback
  | .sretCallback => some sretCallback
  | .sfenceVmaCallback => some sfenceVmaCallback
  | .ecallCallback => some ecallCallback
  | .wfiCallback => some wfiCallback
  | _ => none

theorem callVmmFn_hart {f : VmmFn} {m : VmM Unit} (hf : hartCallee f = some m) {c' : Cpu}
    (hrdi : c'.rdi = hc.hartBase) :
    callVmmFn hc f c' = m >>= fun _ => pure (hc.clobber f c' .rax) := by
  unfold callVmmFn
  rw [if_neg (not_not.mpr hrdi)]
  cases f <;> first | cases hf; rfl | cases hf

/-- A call on the hart, and what the block does behind it. -/
theorem execWp_callOnHart {f : VmmFn} {m : VmM Unit} (hready : Ready hc c)
    (hf : hartCallee f = some m)
    (h : Wp m (fun _ t => ∀ c', Ready hc c' → ExecWp (hostEnv hc) param rest c' Q E t) E vm) :
    ExecWp (hostEnv hc) param (callOnHart f ++ rest) c Q E vm := by
  unfold callOnHart
  rw [List.append_assoc, List.singleton_append, execWp_movq]
  set c₁ := c.set .rdi (c.get .r12)
  have hready₁ : Ready hc c₁ := hready.set rfl _
  have hrdi : (pushed c₁).rdi = hc.hartBase := hready.r12
  rw [execWp_callVmm, callVmmFn_hart hf hrdi, wp_bind]
  refine wp_mono h ?_ fun _ _ he => he
  intro _ t ht
  rw [wp_pure]
  exact ht _ (hready₁.afterCall _ _)

theorem wp_indexArgument (index : RegIndex) {P : RegIndex → Vm → Prop} :
    Wp (indexArgument (indexParam index)) P E vm ↔ P index vm := by
  have hlt := index.isLt
  have hbyte : ((indexParam index).setWidth 8).toNat < 32 := by
    simp only [indexParam, BitVec.toNat_setWidth]
    omega
  have hindex : (indexParam index).setWidth 5 = index := by
    rw [indexParam, BitVec.setWidth_setWidth_of_le _ (by decide), BitVec.setWidth_eq]
  rw [indexArgument, if_pos hbyte, hindex]
  exact Iff.rfl

/-- An atomic block runs its slow path, clears `x0` and goes on. -/
theorem execWp_amo (hready : Ready hc c) (h0 : param 0 = indexParam rs1)
    (h1 : param 1 = indexParam rs2) (h2 : param 2 = indexParam rd)
    (h : Wp (amoInstructionSlowpath rs1 rs2 rd (param 3))
      (fun _ t => ∀ c', Q (.fallThrough, c')
        { t with hart := proceeded (t.hart.setReg 0 0) }) E vm) :
    ExecWp (hostEnv hc) param (templateBody .amo) c Q E vm := by
  unfold templateBody
  simp only [List.append_assoc, List.cons_append, List.nil_append, execWp_movq, execWp_movl,
    Operand.value, h0, h1, h2]
  set c₁ := ((((c.set .rdi (c.get .r12)).set32 .rsi (indexParam rs1)).set32 .rdx
    (indexParam rs2)).set32 .rcx (indexParam rd)).set32 .r8 (param 3)
  have hready₁ : Ready hc c₁ :=
    ((((hready.set rfl _).set rfl _).set rfl _).set rfl _).set rfl _
  have hrdi : (pushed c₁).rdi = hc.hartBase := hready.r12
  have hrsi : (pushed c₁).get32 .rsi = indexParam rs1 := get32_of_get rfl
  have hrdx : (pushed c₁).get32 .rdx = indexParam rs2 := get32_of_get rfl
  have hrcx : (pushed c₁).get32 .rcx = indexParam rd := get32_of_get rfl
  have hr8 : (pushed c₁).get32 .r8 = param 3 := get32_of_get rfl
  rw [execWp_callVmm]
  unfold callVmmFn
  rw [if_neg (not_not.mpr hrdi)]
  simp only [wp_bind, hrsi, hrdx, hrcx, hr8, wp_indexArgument, wp_pure]
  refine wp_mono h ?_ fun _ _ he => he
  intro _ t ht
  have hready₂ := hready₁.afterCall (hc.clobber .amoInstructionSlowpath (pushed c₁))
    (hc.clobber .amoInstructionSlowpath (pushed c₁) .rax)
  rw [execWp_resetZeroRegister hready₂, execWp_proceedToNextInstruction hready₂, endInstruction,
    execWp_jmpEnd]
  exact ht _

end Blocks

end Zelda.Proofs.MemoryTemplates
