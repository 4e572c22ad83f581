import Zelda.Proofs.Callees
/-!
# What a CSR instruction does

All six forms read the register under its mask, put the value in `rd` and
write back a combination of the old value and the operand.
-/

namespace Zelda.Proofs.CsrAccess

open Zelda.Vmm
open Zelda.Lib.Effect
open Zelda.Proofs.Frames
open Zelda.Proofs.Callees

/-! ## Operands -/

/-- The fields of a CSR instruction. -/
abbrev fields (instruction : Word) : Decoding :=
  instructionDecodingPerType instruction .I

/-- The register a CSR instruction names. -/
def csrAddress (instruction : Word) : CsrAddress :=
  (fields instruction).imm.setWidth 12

/-- `rs1`, or its index in the immediate forms. -/
def csrOperand (instruction : Word) (vm : Vm) : Word :=
  if (fields instruction).funct3.getLsbD 2 then (fields instruction).rs1Index.setWidth 32
  else vm.hart.registers (fields instruction).rs1Index

/-- What a read of the register returns. -/
def readValue (csr : CsrEntry) (vm : Vm) : Word :=
  match csr.read with
  | some read => (read vm).1 &&& csr.wpriMask
  | none => 0

/-- The value the instruction combines from what it reads and its operand, before the mask. -/
def combined (instruction : Word) (csr : CsrEntry) (vm : Vm) : Word :=
  match (fields instruction).funct3 with
  | 0x1 | 0x5 => csrOperand instruction vm
  | 0x2 | 0x6 => readValue csr vm ||| csrOperand instruction vm
  | _ => readValue csr vm &&& ~~~csrOperand instruction vm

/-! ## Effects -/

/-- Reading a register changes at most `rd` and the latched clock. -/
def Observed (s t : Vm) : Prop :=
  t = { s with hart := { s.hart with registers := t.hart.registers, tsc := t.hart.tsc } }

/-- The states a CSR instruction can end in. -/
inductive CsrEffect (instruction : Word) (csr : CsrEntry) (s : Vm) : Vm → Prop
  | read {t : Vm} (observed : Observed s t) : CsrEffect instruction csr s t
  | write {u : Vm} {f : Word → Vm → Vm} (observed : Observed s u) (callback : csr.write = some f) :
      CsrEffect instruction csr s (f (combined instruction csr s &&& csr.wpriMask) u)

theorem observed_refl (s : Vm) : Observed s s := rfl

theorem observed_setReg {s t : Vm} (h : Observed s t) (index : RegIndex) (value : Word) :
    Observed s { t with hart := t.hart.setReg index value } := by
  rw [Observed] at h ⊢
  rw [h]
  rfl

theorem csrRead_spec {address : CsrAddress} {csr : CsrEntry} (hkind : CsrKind address csr) (s : Vm) :
    Wp (csrRead csr) (fun value t => value = readValue csr s ∧ Observed s t)
      (fun _ _ => False) s := by
  unfold csrRead readValue
  cases hread : csr.read with
  | none =>
      refine ⟨?_, observed_refl s⟩
      exact BitVec.zero_and
  | some read =>
      refine ⟨rfl, ?_⟩
      show Observed s (read s).2
      cases hkind with
      | readOnly write hlatch =>
          rcases hlatch read hread s with heq | heq
          · rw [heq]
            exact observed_refl s
          · rw [heq]
            rfl
      | blob | mie | mip | mideleg | mstatus | satp | sie | sip | sstatus =>
          obtain rfl := Option.some.inj hread
          exact observed_refl s

theorem csrWrite_effect {instruction : Word} {csr : CsrEntry} {s u : Vm} (hobserved : Observed s u)
    {E : Abort → Vm → Prop} {value : Word} (hvalue : value = combined instruction csr s) :
    Wp (csrWrite csr (value &&& csr.wpriMask)) (fun _ t => CsrEffect instruction csr s t) E u := by
  subst hvalue
  unfold csrWrite
  cases hwrite : csr.write with
  | none => exact .read hobserved
  | some f => exact .write hobserved hwrite

/-- Everything a CSR instruction can do; it never traps. -/
theorem riscvGenericCsrCallback_spec (instruction : Word) (s : Vm) :
    Wp (riscvGenericCsrCallback instruction)
      (fun _ t => ∃ csr, csrEntryAt (csrAddress instruction) = some csr ∧
        CsrEffect instruction csr s t)
      (NoTrap s) s := by
  unfold riscvGenericCsrCallback
  rw [wp_bind]
  unfold assert
  split
  swap
  · exact ⟨by decide, rfl⟩
  rw [wp_pure]
  simp only
  split
  · exact ⟨by decide, rfl⟩
  rename_i csr hcsr
  have hkind := csrEntryAt_kind hcsr
  rw [wp_bind, wp_get]
  have hread : ∀ {Q : Word → Vm → Prop}, (∀ t, Observed s t → Q (readValue csr s) t) →
      Wp (csrRead csr) Q (NoTrap s) s := by
    intro Q hQ
    refine wp_mono (csrRead_spec hkind s) ?_ fun _ _ h => h.elim
    rintro value t ⟨rfl, ht⟩
    exact hQ t ht
  have hwrite : ∀ {u : Vm} {value : Word}, Observed s u → value = combined instruction csr s →
      Wp (csrWrite csr (value &&& csr.wpriMask))
        (fun _ t => ∃ csr, csrEntryAt (csrAddress instruction) = some csr ∧
          CsrEffect instruction csr s t) (NoTrap s) u := by
    intro u value hu hvalue
    refine wp_mono (csrWrite_effect hu hvalue) ?_ fun _ _ h => h
    exact fun _ t ht => ⟨csr, hcsr, ht⟩
  have hdone : ∀ {t : Vm}, Observed s t → ∃ csr, csrEntryAt (csrAddress instruction) = some csr ∧
      CsrEffect instruction csr s t := fun ht => ⟨csr, hcsr, .read ht⟩
  -- the six forms, in pairs of register and immediate operand
  split
  case h_1 hfunct3 | h_2 hfunct3 =>
    have hvalue : (if (fields instruction).funct3 = 0x1 then
        s.hart.registers (fields instruction).rs1Index
        else (fields instruction).rs1Index.setWidth 32) = combined instruction csr s := by
      unfold combined csrOperand
      rw [hfunct3]
      rfl
    split
    · rw [wp_bind]
      refine hread fun t ht => ?_
      rw [wp_bind]
      exact hwrite (observed_setReg ht _ _) hvalue
    · exact hwrite (observed_refl s) hvalue
  case h_3 hfunct3 | h_4 hfunct3 | h_5 hfunct3 | h_6 hfunct3 =>
    rw [wp_bind]
    refine hread fun t ht => ?_
    rw [wp_bind]
    show Wp _ _ _ { t with hart := t.hart.setReg (fields instruction).rdIndex (readValue csr s) }
    have ht' := observed_setReg ht (fields instruction).rdIndex (readValue csr s)
    split
    · refine hwrite ht' ?_
      unfold combined csrOperand
      rw [hfunct3]
      rfl
    · exact hdone ht'
  case h_7 => exact ⟨by decide, rfl⟩

end Zelda.Proofs.CsrAccess
