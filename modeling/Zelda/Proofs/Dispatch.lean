import Zelda.Isa.Encodings
import Zelda.Proofs.Decode
/-!
# The dispatch of the translators

Which instruction the tables of translators take a word for, against the
encodings of the instruction set.  The tables look at some of the fixed fields
only, so reserved words get through, and some slots are empty.
-/

namespace Zelda.Proofs.Dispatch

open Zelda.Vmm
open Zelda.Isa
open Zelda.Lib.Bits
open Zelda.Proofs.Decode

/-! ## The instruction a block is for -/

def systemIndicator : SystemOp → Indicator
  | .ecall => .ecall
  | .ebreak => .ebreak
  | .sret => .sret
  | .mret => .mret
  | .wfi => .wfi

/-- The template of an instruction. -/
def indicatorOf : Mnemonic → Indicator
  | .lui => .lui
  | .auipc => .auipc
  | .jal => .jal
  | .jalr => .jalr
  | .branch op => branchIndicator op
  | .load op => loadIndicator op
  | .store op => storeIndicator op
  | .opImm op => immIndicator op
  | .shiftImm op => shiftImmIndicator op
  | .opReg op => regIndicator op
  | .mulDiv op => mulDivIndicator op
  | .fence => .fence
  | .fenceI => .fenceI
  | .amo _ => .amo
  | .system op => systemIndicator op
  | .sfenceVma => .sfenceVma
  | .csr _ => .genericCsr

/--
The block is the one of the instruction.  Atomics share a template that goes
by the `funct5` parameter, CSR accesses one that goes by `funct3` of the word.
-/
def Selects (e : Emitted) (m : Mnemonic) : Prop :=
  e.indicator = indicatorOf m ∧
    match m with
    | .amo op => e.params[3]? = some (op.funct5.setWidth 32)
    | .csr op => ∃ word : Word, e.params = [word] ∧ (word >>> 12).setWidth 3 = op.funct3
    | _ => True

/-- The instruction of a template, where there is one only. -/
def soleMnemonic : Indicator → Option Mnemonic
  | .lui => some .lui
  | .auipc => some .auipc
  | .jal => some .jal
  | .jalr => some .jalr
  | .addi => some (.opImm .addi)
  | .slti => some (.opImm .slti)
  | .sltiu => some (.opImm .sltiu)
  | .xori => some (.opImm .xori)
  | .ori => some (.opImm .ori)
  | .andi => some (.opImm .andi)
  | .slli => some (.shiftImm .sll)
  | .srli => some (.shiftImm .srl)
  | .srai => some (.shiftImm .sra)
  | .add => some (.opReg .add)
  | .sub => some (.opReg .sub)
  | .sll => some (.opReg (.shift .sll))
  | .slt => some (.opReg .slt)
  | .sltu => some (.opReg .sltu)
  | .xor => some (.opReg .xor)
  | .srl => some (.opReg (.shift .srl))
  | .sra => some (.opReg (.shift .sra))
  | .or => some (.opReg .or)
  | .and => some (.opReg .and)
  | .mul => some (.mulDiv .mul)
  | .mulh => some (.mulDiv .mulh)
  | .mulhsu => some (.mulDiv .mulhsu)
  | .mulhu => some (.mulDiv .mulhu)
  | .div => some (.mulDiv .div)
  | .divu => some (.mulDiv .divu)
  | .rem => some (.mulDiv .rem)
  | .remu => some (.mulDiv .remu)
  | .beq => some (.branch .beq)
  | .bne => some (.branch .bne)
  | .blt => some (.branch .blt)
  | .bge => some (.branch .bge)
  | .bltu => some (.branch .bltu)
  | .bgeu => some (.branch .bgeu)
  | .lb => some (.load .lb)
  | .lh => some (.load .lh)
  | .lw => some (.load .lw)
  | .lbu => some (.load .lbu)
  | .lhu => some (.load .lhu)
  | .sb => some (.store .sb)
  | .sh => some (.store .sh)
  | .sw => some (.store .sw)
  | .amo => none
  | .fence => some .fence
  | .fenceI => some .fenceI
  | .ebreak => some (.system .ebreak)
  | .ecall => some (.system .ecall)
  | .mret => some (.system .mret)
  | .sret => some (.system .sret)
  | .sfenceVma => some .sfenceVma
  | .wfi => some (.system .wfi)
  | .genericCsr => none

theorem soleMnemonic_indicatorOf (m : Mnemonic) :
    soleMnemonic (indicatorOf m) = some m ∨ (∃ op, m = .amo op) ∨ ∃ op, m = .csr op := by
  cases m with
  | amo op => exact .inr (.inl ⟨op, rfl⟩)
  | csr op => exact .inr (.inr ⟨op, rfl⟩)
  | lui | auipc | jal | jalr | fence | fenceI | sfenceVma => exact .inl rfl
  | opReg op =>
      cases op with
      | shift op => cases op <;> exact .inl rfl
      | add | sub | slt | sltu | xor | or | and => exact .inl rfl
  | branch op | load op | store op | opImm op | shiftImm op | mulDiv op | system op =>
      cases op <;> exact .inl rfl

theorem funct5_injective {op op' : AmoOp}
    (h : (op.funct5.setWidth 32 : Word) = op'.funct5.setWidth 32) : op = op' := by
  rcases op with _ | _ | (_ | _ | _ | _ | _) | _ | _ | _ | _ <;>
    rcases op' with _ | _ | (_ | _ | _ | _ | _) | _ | _ | _ | _ <;>
    first | rfl | exact absurd h (by decide)

theorem csr_funct3_injective {op op' : CsrOp} (h : op.funct3 = op'.funct3) : op = op' := by
  cases op <;> cases op' <;> first | rfl | exact absurd h (by decide)

/-- A block is for one instruction at most. -/
theorem selects_unique {e : Emitted} {m m' : Mnemonic} (h : Selects e m) (h' : Selects e m') :
    m = m' := by
  have hind : indicatorOf m = indicatorOf m' := h.1.symm.trans h'.1
  rcases soleMnemonic_indicatorOf m with hm | ⟨op, rfl⟩ | ⟨op, rfl⟩
  · rcases soleMnemonic_indicatorOf m' with hm' | ⟨op', rfl⟩ | ⟨op', rfl⟩
    · rw [hind, hm'] at hm
      exact (Option.some.inj hm).symm
    · rw [hind] at hm
      cases hm
    · rw [hind] at hm
      cases hm
  · rcases soleMnemonic_indicatorOf m' with hm' | ⟨op', rfl⟩ | ⟨op', rfl⟩
    · rw [← hind] at hm'
      cases hm'
    · have hparam := h.2.symm.trans h'.2
      rw [funct5_injective (Option.some.inj hparam)]
    · cases hind
  · rcases soleMnemonic_indicatorOf m' with hm' | ⟨op', rfl⟩ | ⟨op', rfl⟩
    · rw [← hind] at hm'
      cases hm'
    · cases hind
    · obtain ⟨word, hparams, hfunct3⟩ := h.2
      obtain ⟨word', hparams', hfunct3'⟩ := h'.2
      rw [hparams] at hparams'
      obtain rfl := List.cons.inj hparams' |>.1
      rw [csr_funct3_injective (hfunct3.symm.trans hfunct3')]

/-! ## Fields the tables test -/

theorem toNat_fields (word : Word) :
    (fieldsOf word).funct7.toNat = word.toNat / 2 ^ 25 % 2 ^ 7 ∧
      (fieldsOf word).rs2.toNat = word.toNat / 2 ^ 20 % 2 ^ 5 ∧
      (fieldsOf word).rd.toNat = word.toNat / 2 ^ 7 % 2 ^ 5 := by
  simp only [fieldsOf, BitVec.toNat_setWidth, BitVec.toNat_ushiftRight, Nat.shiftRight_eq_div_pow]
  exact ⟨trivial, trivial, trivial⟩

/-- Of an S-type immediate, the translators look at the upper seven bits. -/
theorem sType_imm (word : Word) :
    (instructionDecodingPerType word .S).imm >>> 5 = (fieldsOf word).funct7.setWidth 32 := by
  obtain ⟨hfunct7, -, hrd⟩ := toNat_fields word
  have himm : (instructionDecodingPerType word .S).imm =
      ((fieldsOf word).funct7 ++ (fieldsOf word).rd).setWidth 32 := by
    rw [setWidth_append, BitVec.or_comm, instructionDecodingPerType,
      masked_eq (y := (fieldsOf word).rd) rfl (by decide) hrd.symm,
      masked_eq (y := (fieldsOf word).funct7) rfl (by decide) hfunct7.symm]
  have h7 := (fieldsOf word).funct7.isLt
  have h5 := (fieldsOf word).rd.isLt
  rw [himm]
  apply BitVec.eq_of_toNat_eq
  rw [BitVec.toNat_ushiftRight, Nat.shiftRight_eq_div_pow, BitVec.toNat_setWidth,
    BitVec.toNat_setWidth, toNat_append]
  generalize (fieldsOf word).funct7.toNat = a at h7
  generalize (fieldsOf word).rd.toNat = b at h5
  clear hfunct7 hrd himm
  omega

/-- Bit 10 of an I-type immediate is bit 5 of `funct7`. -/
theorem iType_imm_bit (word : Word) :
    (instructionDecodingPerType word .I).imm &&& 0x400 = 0 ↔ (fieldsOf word).funct7 &&& 0x20 = 0 := by
  obtain ⟨hfunct7, hrs2, -⟩ := toNat_fields word
  have himm : (instructionDecodingPerType word .I).imm =
      ((fieldsOf word).funct7 ++ (fieldsOf word).rs2).setWidth 32 := by
    rw [instructionDecodingPerType]
    refine masked_eq rfl (by decide) ?_
    rw [toNat_append, hfunct7, hrs2]
    omega
  rw [himm]
  have hbit : ∀ (funct7 : BitVec 7) (rs2 : BitVec 5),
      (funct7 ++ rs2).setWidth 32 &&& 0x400#32 = 0 ↔ funct7 &&& 0x20#7 = 0 := by decide +kernel
  exact hbit _ _

/-! ## The words the tables get right -/

/-- The upper bits of a shift amount are those of the instruction. -/
def RegularShift (f : Fields) : Prop :=
  (f.funct3 = 1 → f.funct7 = 0) ∧ (f.funct3 = 5 → f.funct7 = 0 ∨ f.funct7 = 0x20)

/-- Where only the two low bits of `funct7` are tested, the others are zero. -/
def RegularOp (f : Fields) : Prop :=
  (f.funct7 &&& 3 = 0 → f.funct3 ≠ 0 → f.funct3 ≠ 5 → f.funct7 = 0) ∧
    (f.funct7 &&& 3 = 1 → f.funct7 = 1)

/-- Where only `funct5` is tested, the width and `rs2` are right; the minima and maxima are absent. -/
def RegularAmo (f : Fields) : Prop :=
  (f.funct7 >>> 2 ∈ amoFunct5s → f.funct3 = 2 ∧ (f.funct5 = 2 → f.rs2 = 0)) ∧
    (f.funct5 ∈ [0x10, 0x14, 0x18, 0x1c] → f.funct3 ≠ 2)

/-- The fields `riscv_funct3_000_translator` does not test are zero. -/
def RegularSystem (f : Fields) : Prop :=
  (f.funct7 = 9 → f.rd = 0) ∧
    (f.funct7 ≠ 9 → f.rs2 = 0 ∨ f.rs2 = 1 → f.funct7 = 0 ∧ f.rs1 = 0 ∧ f.rd = 0) ∧
    ((f.rs2 = 2 ∧ (f.funct7 = 0x18 ∨ f.funct7 = 8)) ∨ (f.rs2 = 5 ∧ f.funct7 = 8) →
      f.rs1 = 0 ∧ f.rd = 0)

/-- What a word has to satisfy, by opcode, to be taken for what it encodes. -/
structure Regular (f : Fields) : Prop where
  jalr : f.opcode = RISCV_OPCODE_JARL → f.funct3 = 0
  shift : f.opcode = RISCV_OPCODE_OP_IMM → RegularShift f
  op : f.opcode = RISCV_OPCODE_OP → RegularOp f
  amo : f.opcode = RISCV_OPCODE_AMO → RegularAmo f
  system : f.opcode = RISCV_OPCODE_SUPERVISOR_LEVEL → f.funct3 = 0 → RegularSystem f

/-- The instructions without a slot in the tables. -/
def Missing (m : Mnemonic) : Prop :=
  m = .amo .amomin ∨ m = .amo .amomax ∨ m = .amo .amominu ∨ m = .amo .amomaxu

/-- The slot of an opcode, in `translation_init`. -/
theorem translate_slot (word pc : Word) :
    Vmm.translate word pc =
      match (fieldsOf word).opcode with
      | 0b0110111 => some (riscvLuiTranslator word pc)
      | 0b0010111 => some (riscvAuipcTranslator word pc)
      | 0b1101111 => some (riscvJalTranslator word pc)
      | 0b1100111 => some (riscvJalrTranslator word pc)
      | 0b0010011 => riscvArithmeticImmediateInstructionsTranslationEntry word
      | 0b0100011 => riscvMemoryStoreInstructionsTranslationEntry word
      | 0b0000011 => riscvMemoryLoadInstructionsTranslationEntry word
      | 0b1100011 => riscvBranchInstructionsTranslationEntry word pc
      | 0b0110011 => riscvArithmeticInstructionsTranslationEntry word
      | 0b0001111 => riscvFenceInstructionsTranslationEntry word pc
      | 0b1110011 => riscvSupervisorLevelInstructionsTranslationEntry word pc
      | 0b0101111 => riscvAmoInstructionsTranslationEntry word
      | _ => none := by
  have hop : opcodeOf word = (fieldsOf word).opcode := rfl
  unfold Vmm.translate
  rw [hop]
  generalize (fieldsOf word).opcode = opcode
  split
  case h_13 hlui hauipc hjal hjalr himm hstore hload hbranch hop hfence hsystem hamo =>
      exact (if_neg hlui).trans <| (if_neg hauipc).trans <| (if_neg hjal).trans <|
        (if_neg hjalr).trans <| (if_neg himm).trans <| (if_neg hstore).trans <|
        (if_neg hload).trans <| (if_neg hbranch).trans <| (if_neg hop).trans <|
        (if_neg hfence).trans <| (if_neg hsystem).trans (if_neg hamo)
  all_goals rfl

/-! ## Words that encode an instruction -/

theorem funct5_shift (f : Fields) : f.funct5.setWidth 7 = f.funct7 >>> 2 := by
  have hall : ∀ funct7 : BitVec 7, ((funct7 >>> 2).setWidth 5).setWidth 7 = funct7 >>> 2 := by decide
  exact hall f.funct7

theorem funct5_param (f : Fields) : f.funct7.setWidth 32 >>> 2 = (f.funct5.setWidth 32 : Word) := by
  have hall : ∀ funct7 : BitVec 7,
      funct7.setWidth 32 >>> 2 = (((funct7 >>> 2).setWidth 5).setWidth 32 : Word) := by decide
  exact hall f.funct7

theorem translate_funct3000 {word : Word} (hop : (fieldsOf word).opcode = 0b1110011)
    (hfunct3 : (fieldsOf word).funct3 = 0) (pc : Word) :
    Vmm.translate word pc =
      if (fieldsOf word).funct7 = 9 then some (emitStop .sfenceVma [pc])
      else if (fieldsOf word).rs2 = 5 then
        if (fieldsOf word).funct7 = 8 then some (emitStop .wfi [pc]) else none
      else if (fieldsOf word).rs2 = 1 then some (emitNext .ebreak [pc])
      else if (fieldsOf word).rs2 = 2 then
        if (fieldsOf word).funct7 = 0x18 then some (emitStop .mret [pc])
        else if (fieldsOf word).funct7 = 8 then some (emitStop .sret [pc])
        else none
      else if (fieldsOf word).rs2 = 0 then some (emitStop .ecall [pc])
      else none := by
  have hnine : ∀ funct7 : BitVec 7, funct7.setWidth 32 &&& 0x7f = (0x9 : Word) ↔ funct7 = 9 := by
    decide
  have height : ∀ funct7 : BitVec 7, funct7.setWidth 32 = (0x8 : Word) ↔ funct7 = 8 := by decide
  have hmret : ∀ funct7 : BitVec 7, funct7.setWidth 32 = (0x18 : Word) ↔ funct7 = 0x18 := by decide
  rw [translate_slot, hop]
  show riscvSupervisorLevelInstructionsTranslationEntry word pc = _
  have hentry : riscvSupervisorLevelInstructionsTranslationEntry word pc =
      riscvFunct3000Translator (instructionDecodingPerType word .S) pc := if_pos hfunct3
  rw [hentry, riscvFunct3000Translator, sType_imm]
  simp only [hnine, height, hmret]
  rfl

theorem translate_amo {word : Word} (hop : (fieldsOf word).opcode = 0b0101111) (pc : Word) :
    Vmm.translate word pc =
      if (fieldsOf word).funct7 >>> 2 ∈ amoFunct5s then
        some (riscvAmoTranslator (instructionDecodingPerType word .R))
      else none := by
  rw [translate_slot, hop]
  rfl

/-- Every instruction with a slot is translated as itself. -/
theorem translate_encoded {word : Word} {m : Mnemonic} (h : m.Encodes (fieldsOf word))
    (hslot : ¬Missing m) (pc : Word) : ∃ e, Vmm.translate word pc = some e ∧ Selects e m := by
  cases m with
  | lui | auipc | jal =>
      have hop : (fieldsOf word).opcode = _ := h
      rw [translate_slot, hop]
      exact ⟨_, rfl, rfl, trivial⟩
  | jalr =>
      rw [translate_slot, h.1]
      exact ⟨_, rfl, rfl, trivial⟩
  | branch op =>
      obtain ⟨hop, hfunct3⟩ := h
      have hdec : (instructionDecodingPerType word .B).funct3 = op.funct3 := hfunct3
      rw [translate_slot, hop]
      simp only [riscvBranchInstructionsTranslationEntry, hdec]
      cases op <;> exact ⟨_, rfl, rfl, trivial⟩
  | load op =>
      obtain ⟨hop, hfunct3⟩ := h
      have hdec : (instructionDecodingPerType word .I).funct3 = op.funct3 := hfunct3
      rw [translate_slot, hop]
      simp only [riscvMemoryLoadInstructionsTranslationEntry, hdec]
      cases op <;> exact ⟨_, rfl, rfl, trivial⟩
  | store op =>
      obtain ⟨hop, hfunct3⟩ := h
      have hdec : (instructionDecodingPerType word .S).funct3 = op.funct3 := hfunct3
      rw [translate_slot, hop]
      simp only [riscvMemoryStoreInstructionsTranslationEntry, hdec]
      cases op <;> exact ⟨_, rfl, rfl, trivial⟩
  | opImm op =>
      obtain ⟨hop, hfunct3⟩ := h
      have hdec : (instructionDecodingPerType word .I).funct3 = op.funct3 := hfunct3
      rw [translate_slot, hop]
      simp only [riscvArithmeticImmediateInstructionsTranslationEntry, hdec]
      cases op <;> exact ⟨_, rfl, rfl, trivial⟩
  | shiftImm op =>
      obtain ⟨hop, hfunct3, hfunct7⟩ := h
      have hdec : (instructionDecodingPerType word .I).funct3 = op.funct3 := hfunct3
      have hbit := iType_imm_bit word
      rw [hfunct7] at hbit
      rw [translate_slot, hop]
      simp only [riscvArithmeticImmediateInstructionsTranslationEntry, hdec]
      cases op with
      | sll => exact ⟨_, rfl, rfl, trivial⟩
      | srl => exact ⟨_, if_pos (hbit.mpr rfl), rfl, trivial⟩
      | sra => exact ⟨_, if_neg fun hzero => absurd (hbit.mp hzero) (by decide), rfl, trivial⟩
  | opReg op =>
      obtain ⟨hop, hfunct3, hfunct7⟩ := h
      have hdec3 : (instructionDecodingPerType word .R).funct3 = op.funct3 := hfunct3
      have hdec7 : (instructionDecodingPerType word .R).funct7 = op.funct7 := hfunct7
      rw [translate_slot, hop]
      simp only [riscvArithmeticInstructionsTranslationEntry,
        riscvArithmeticInstructionsClass0TranslationEntry, funct7Translator, hdec3, hdec7]
      cases op with
      | shift op => cases op <;> exact ⟨_, rfl, rfl, trivial⟩
      | add | sub | slt | sltu | xor | or | and => exact ⟨_, rfl, rfl, trivial⟩
  | mulDiv op =>
      obtain ⟨hop, hfunct3, hfunct7⟩ := h
      have hdec3 : (instructionDecodingPerType word .R).funct3 = op.funct3 := hfunct3
      have hdec7 : (instructionDecodingPerType word .R).funct7 = 1 := hfunct7
      rw [translate_slot, hop]
      simp only [riscvArithmeticInstructionsTranslationEntry,
        riscvMulDivInstructionsTranslationEntry, hdec3, hdec7]
      cases op <;> exact ⟨_, rfl, rfl, trivial⟩
  | fence | fenceI =>
      obtain ⟨hop, hfunct3⟩ := h
      have hdec : (instructionDecodingPerType word .S).funct3 = _ := hfunct3
      rw [translate_slot, hop]
      simp only [riscvFenceInstructionsTranslationEntry, hdec]
      exact ⟨_, rfl, rfl, trivial⟩
  | amo op =>
      obtain ⟨hop, -, hfunct5, -⟩ := h
      have hmem : (fieldsOf word).funct7 >>> 2 ∈ amoFunct5s := by
        rw [← funct5_shift, hfunct5]
        revert hslot
        unfold Missing
        rcases op with _ | _ | (_ | _ | _ | _ | _) | _ | _ | _ | _ <;> decide
      rw [translate_amo hop, if_pos hmem]
      refine ⟨_, rfl, rfl, ?_⟩
      show some ((fieldsOf word).funct7.setWidth 32 >>> 2) = _
      rw [funct5_param, hfunct5]
  | system op =>
      obtain ⟨hop, hfunct3, hfunct7, hrs2, -, -⟩ := h
      rw [translate_funct3000 hop hfunct3, hfunct7, hrs2]
      cases op <;> exact ⟨_, rfl, rfl, trivial⟩
  | sfenceVma =>
      obtain ⟨hop, hfunct3, hfunct7, -⟩ := h
      rw [translate_funct3000 hop hfunct3, if_pos hfunct7]
      exact ⟨_, rfl, rfl, trivial⟩
  | csr op =>
      obtain ⟨hop, hfunct3⟩ := h
      have hword : (word >>> 12).setWidth 3 = op.funct3 := hfunct3
      rw [translate_slot, hop]
      simp only [riscvSupervisorLevelInstructionsTranslationEntry, hword]
      cases op <;> exact ⟨_, rfl, rfl, word, rfl, hword⟩

/-! ## Words the tables accept -/

section Regular

variable {f : Fields}

theorem regular_iff_shift (hop : f.opcode = 0b0010011) : Regular f ↔ RegularShift f := by
  refine ⟨fun h => h.shift hop, fun h => ⟨?_, fun _ => h, ?_, ?_, ?_⟩⟩ <;>
    exact fun hother => absurd (hop.symm.trans hother) (by decide)

theorem regular_iff_op (hop : f.opcode = 0b0110011) : Regular f ↔ RegularOp f := by
  refine ⟨fun h => h.op hop, fun h => ⟨?_, ?_, fun _ => h, ?_, ?_⟩⟩ <;>
    exact fun hother => absurd (hop.symm.trans hother) (by decide)

theorem regular_iff_amo (hop : f.opcode = 0b0101111) : Regular f ↔ RegularAmo f := by
  refine ⟨fun h => h.amo hop, fun h => ⟨?_, ?_, ?_, fun _ => h, ?_⟩⟩ <;>
    exact fun hother => absurd (hop.symm.trans hother) (by decide)

theorem regular_iff_system (hop : f.opcode = 0b1110011) :
    Regular f ↔ (f.funct3 = 0 → RegularSystem f) := by
  refine ⟨fun h => h.system hop, fun h => ⟨?_, ?_, ?_, ?_, fun _ => h⟩⟩ <;>
    exact fun hother => absurd (hop.symm.trans hother) (by decide)

theorem regular_iff_jalr (hop : f.opcode = 0b1100111) : Regular f ↔ f.funct3 = 0 := by
  refine ⟨fun h => h.jalr hop, fun h => ⟨fun _ => h, ?_, ?_, ?_, ?_⟩⟩ <;>
    exact fun hother => absurd (hop.symm.trans hother) (by decide)

/-- Under the other opcodes every word is regular. -/
theorem regular_of_opcode (hop : f.opcode ∉ [0b1100111, 0b0010011, 0b0110011, 0b0101111, 0b1110011]) :
    Regular f := by
  simp only [List.mem_cons, List.not_mem_nil, or_false, not_or] at hop
  obtain ⟨hjalr, hshift, hreg, hamo, hsystem⟩ := hop
  exact ⟨fun h => absurd h hjalr, fun h => absurd h hshift, fun h => absurd h hreg,
    fun h => absurd h hamo, fun h => absurd h hsystem⟩

theorem regularSystem_sfence (hfunct7 : f.funct7 = 9) : RegularSystem f ↔ f.rd = 0 := by
  refine ⟨fun h => h.1 hfunct7, fun hrd => ⟨fun _ => hrd, fun hne => absurd hfunct7 hne, ?_⟩⟩
  rintro (⟨-, h | h⟩ | ⟨-, h⟩)
  · exact absurd (hfunct7.symm.trans h) (by decide)
  · exact absurd (hfunct7.symm.trans h) (by decide)
  · exact absurd (hfunct7.symm.trans h) (by decide)

theorem regularSystem_call (hfunct7 : f.funct7 ≠ 9) (hrs2 : f.rs2 = 0 ∨ f.rs2 = 1) :
    RegularSystem f ↔ f.funct7 = 0 ∧ f.rs1 = 0 ∧ f.rd = 0 := by
  refine ⟨fun h => h.2.1 hfunct7 hrs2, fun h => ⟨fun h9 => absurd h9 hfunct7, fun _ _ => h, ?_⟩⟩
  exact fun _ => h.2

theorem regularSystem_return (hfunct7 : f.funct7 ≠ 9) (hrs2 : f.rs2 ≠ 0 ∧ f.rs2 ≠ 1)
    (hreturn : (f.rs2 = 2 ∧ (f.funct7 = 0x18 ∨ f.funct7 = 8)) ∨ (f.rs2 = 5 ∧ f.funct7 = 8)) :
    RegularSystem f ↔ f.rs1 = 0 ∧ f.rd = 0 := by
  refine ⟨fun h => h.2.2 hreturn, fun h => ⟨fun h9 => absurd h9 hfunct7, ?_, fun _ => h⟩⟩
  rintro - (h0 | h1)
  · exact absurd h0 hrs2.1
  · exact absurd h1 hrs2.2

end Regular

section Accepted

variable {word pc : Word} {e : Emitted}

/-- The block is one for `m`, and it is right just for the regular words. -/
def Accepts (word : Word) (e : Emitted) (m : Mnemonic) : Prop :=
  Selects e m ∧ (m.Encodes (fieldsOf word) ↔ Regular (fieldsOf word))

theorem accepted_branch (hop : (fieldsOf word).opcode = 0b1100011)
    (h : riscvBranchInstructionsTranslationEntry word pc = some e) :
    ∃ op, Accepts word e (.branch op) := by
  have hregular : Regular (fieldsOf word) := regular_of_opcode (by rw [hop]; decide)
  have haccept : ∀ op : BranchOp, (instructionDecodingPerType word .B).funct3 = op.funct3 →
      branchTranslator (branchIndicator op) (instructionDecodingPerType word .B) pc = e →
      ∃ op, Accepts word e (.branch op) := by
    rintro op hfunct3 rfl
    exact ⟨op, ⟨rfl, trivial⟩, fun _ => hregular, fun _ => ⟨hop, hfunct3⟩⟩
  unfold riscvBranchInstructionsTranslationEntry at h
  simp only at h
  split at h
  · exact haccept .beq ‹_› (Option.some.inj h)
  · exact haccept .bne ‹_› (Option.some.inj h)
  · exact haccept .blt ‹_› (Option.some.inj h)
  · exact haccept .bge ‹_› (Option.some.inj h)
  · exact haccept .bltu ‹_› (Option.some.inj h)
  · exact haccept .bgeu ‹_› (Option.some.inj h)
  · cases h

theorem accepted_load (hop : (fieldsOf word).opcode = 0b0000011)
    (h : riscvMemoryLoadInstructionsTranslationEntry word = some e) :
    ∃ op, Accepts word e (.load op) := by
  have hregular : Regular (fieldsOf word) := regular_of_opcode (by rw [hop]; decide)
  have haccept : ∀ op : LoadOp, (instructionDecodingPerType word .I).funct3 = op.funct3 →
      loadTranslator (loadIndicator op) (instructionDecodingPerType word .I) = e →
      ∃ op, Accepts word e (.load op) := by
    rintro op hfunct3 rfl
    exact ⟨op, ⟨rfl, trivial⟩, fun _ => hregular, fun _ => ⟨hop, hfunct3⟩⟩
  unfold riscvMemoryLoadInstructionsTranslationEntry at h
  simp only at h
  split at h
  · exact haccept .lb ‹_› (Option.some.inj h)
  · exact haccept .lh ‹_› (Option.some.inj h)
  · exact haccept .lw ‹_› (Option.some.inj h)
  · exact haccept .lbu ‹_› (Option.some.inj h)
  · exact haccept .lhu ‹_› (Option.some.inj h)
  · cases h

theorem accepted_store (hop : (fieldsOf word).opcode = 0b0100011)
    (h : riscvMemoryStoreInstructionsTranslationEntry word = some e) :
    ∃ op, Accepts word e (.store op) := by
  have hregular : Regular (fieldsOf word) := regular_of_opcode (by rw [hop]; decide)
  have haccept : ∀ op : StoreOp, (instructionDecodingPerType word .S).funct3 = op.funct3 →
      storeTranslator (storeIndicator op) (instructionDecodingPerType word .S) = e →
      ∃ op, Accepts word e (.store op) := by
    rintro op hfunct3 rfl
    exact ⟨op, ⟨rfl, trivial⟩, fun _ => hregular, fun _ => ⟨hop, hfunct3⟩⟩
  unfold riscvMemoryStoreInstructionsTranslationEntry at h
  simp only at h
  split at h
  · exact haccept .sb ‹_› (Option.some.inj h)
  · exact haccept .sh ‹_› (Option.some.inj h)
  · exact haccept .sw ‹_› (Option.some.inj h)
  · cases h

theorem accepted_fence (hop : (fieldsOf word).opcode = 0b0001111)
    (h : riscvFenceInstructionsTranslationEntry word pc = some e) :
    ∃ m, Accepts word e m := by
  have hregular : Regular (fieldsOf word) := regular_of_opcode (by rw [hop]; decide)
  unfold riscvFenceInstructionsTranslationEntry at h
  simp only at h
  split at h
  · obtain rfl := Option.some.inj h
    exact ⟨.fence, ⟨rfl, trivial⟩, fun _ => hregular, fun _ => ⟨hop, ‹_›⟩⟩
  · obtain rfl := Option.some.inj h
    exact ⟨.fenceI, ⟨rfl, trivial⟩, fun _ => hregular, fun _ => ⟨hop, ‹_›⟩⟩
  · cases h

/-- The immediates of `slli`, `srli` and `srai` carry `funct7`, of which one bit is tested. -/
theorem accepted_opImm (hop : (fieldsOf word).opcode = 0b0010011)
    (h : riscvArithmeticImmediateInstructionsTranslationEntry word = some e) :
    ∃ m, Accepts word e m := by
  have haccept : ∀ (op : ImmOp) (imm : Word),
      (instructionDecodingPerType word .I).funct3 = op.funct3 →
      immediateTranslator (immIndicator op) imm (instructionDecodingPerType word .I) = e →
      ∃ m, Accepts word e m := by
    rintro op imm hfunct3 rfl
    have hfield : (fieldsOf word).funct3 = op.funct3 := hfunct3
    refine ⟨.opImm op, ⟨rfl, trivial⟩, fun _ => ?_, fun _ => ⟨hop, hfield⟩⟩
    rw [regular_iff_shift hop, RegularShift, hfield]
    cases op <;> exact ⟨fun h => absurd h (by decide), fun h => absurd h (by decide)⟩
  have hshift : ∀ (op : ShiftOp), (instructionDecodingPerType word .I).funct3 = op.funct3 →
      ((fieldsOf word).funct7 = op.funct7 ↔ RegularShift (fieldsOf word)) →
      immediateTranslator (shiftImmIndicator op) (instructionDecodingPerType word .I).imm
        (instructionDecodingPerType word .I) = e →
      ∃ m, Accepts word e m := by
    rintro op hfunct3 hfunct7 rfl
    refine ⟨.shiftImm op, ⟨rfl, trivial⟩, ?_⟩
    rw [regular_iff_shift hop, ← hfunct7]
    exact ⟨fun h => h.2.2, fun h => ⟨hop, hfunct3, h⟩⟩
  have hbit := iType_imm_bit word
  unfold riscvArithmeticImmediateInstructionsTranslationEntry at h
  simp only at h
  split at h
  · exact haccept .addi _ ‹_› (Option.some.inj h)
  · rename_i hfunct3
    have hfield : (fieldsOf word).funct3 = 1 := hfunct3
    refine hshift .sll hfunct3 ?_ (Option.some.inj h)
    rw [RegularShift, hfield]
    simp [ShiftOp.funct7]
  · exact haccept .slti _ ‹_› (Option.some.inj h)
  · exact haccept .sltiu _ ‹_› (Option.some.inj h)
  · exact haccept .xori _ ‹_› (Option.some.inj h)
  · rename_i hfunct3
    have hfield : (fieldsOf word).funct3 = 5 := hfunct3
    have hfive : RegularShift (fieldsOf word) ↔
        (fieldsOf word).funct7 = 0 ∨ (fieldsOf word).funct7 = 0x20 := by
      rw [RegularShift, hfield]
      simp
    split at h
    · rename_i hlogical
      refine hshift .srl hfunct3 ?_ (Option.some.inj h)
      rw [hbit] at hlogical
      rw [hfive]
      refine ⟨.inl, fun hor => hor.resolve_right fun hsra => ?_⟩
      rw [hsra] at hlogical
      exact absurd hlogical (by decide)
    · rename_i harithmetic
      refine hshift .sra hfunct3 ?_ (Option.some.inj h)
      rw [hbit] at harithmetic
      rw [hfive]
      refine ⟨.inr, fun hor => hor.resolve_left fun hsrl => ?_⟩
      rw [hsrl] at harithmetic
      exact harithmetic (by decide)
  · exact haccept .ori _ ‹_› (Option.some.inj h)
  · exact haccept .andi _ ‹_› (Option.some.inj h)

/-- `add`, `sub`, `srl` and `sra` test all of `funct7`. -/
theorem accepted_funct7 (hop : (fieldsOf word).opcode = 0b0110011) (zero twenty : RegOp)
    (hzero : (fieldsOf word).funct3 = zero.funct3 ∧ zero.funct7 = 0)
    (htwenty : (fieldsOf word).funct3 = twenty.funct3 ∧ twenty.funct7 = 0x20)
    (hfunct3 : (fieldsOf word).funct3 = 0 ∨ (fieldsOf word).funct3 = 5)
    (h : funct7Translator (regIndicator zero) (regIndicator twenty)
      (instructionDecodingPerType word .R) = some e) : ∃ m, Accepts word e m := by
  have hregular : (fieldsOf word).funct7 &&& 3 ≠ 1 → Regular (fieldsOf word) := by
    intro hclass
    rw [regular_iff_op hop]
    refine ⟨fun _ hne0 hne5 => ?_, fun hone => absurd hone hclass⟩
    rcases hfunct3 with h0 | h5
    · exact absurd h0 hne0
    · exact absurd h5 hne5
  unfold funct7Translator at h
  split at h
  · rename_i hfunct7
    have hfield : (fieldsOf word).funct7 = 0x20 := hfunct7
    obtain rfl := Option.some.inj h
    refine ⟨.opReg twenty, ⟨rfl, trivial⟩, fun _ => hregular ?_, fun _ => ⟨hop, htwenty.1, ?_⟩⟩
    · rw [hfield]
      decide
    · exact hfield.trans htwenty.2.symm
  · split at h
    · rename_i hfunct7
      have hfield : (fieldsOf word).funct7 = 0 := hfunct7
      obtain rfl := Option.some.inj h
      refine ⟨.opReg zero, ⟨rfl, trivial⟩, fun _ => hregular ?_, fun _ => ⟨hop, hzero.1, ?_⟩⟩
      · rw [hfield]
        decide
      · exact hfield.trans hzero.2.symm
    · cases h

theorem accepted_op (hop : (fieldsOf word).opcode = 0b0110011)
    (h : riscvArithmeticInstructionsTranslationEntry word = some e) :
    ∃ m, Accepts word e m := by
  unfold riscvArithmeticInstructionsTranslationEntry at h
  simp only at h
  split at h
  · rename_i hclass
    have hclass0 : (fieldsOf word).funct7 &&& 3 = 0 := hclass
    -- the translators of the other operations test the class only
    have haccept : ∀ op : RegOp, (instructionDecodingPerType word .R).funct3 = op.funct3 →
        op.funct7 = 0 → op.funct3 ≠ 0 → op.funct3 ≠ 5 →
        registerTranslator (regIndicator op) (instructionDecodingPerType word .R) = e →
        ∃ m, Accepts word e m := by
      rintro op hfunct3 hfunct7 hne0 hne5 rfl
      have hfield : (fieldsOf word).funct3 = op.funct3 := hfunct3
      refine ⟨.opReg op, ⟨rfl, trivial⟩, ?_⟩
      rw [regular_iff_op hop]
      constructor
      · rintro ⟨-, -, h7⟩
        rw [RegularOp, h7, hfunct7]
        exact ⟨fun _ _ _ => rfl, fun hone => absurd hone (by decide)⟩
      · intro hregular
        have h7 := hregular.1 hclass0 (hfield ▸ hne0) (hfield ▸ hne5)
        exact ⟨hop, hfield, h7.trans hfunct7.symm⟩
    unfold riscvArithmeticInstructionsClass0TranslationEntry at h
    split at h
    · rename_i hfunct3
      have hfield : (fieldsOf word).funct3 = 0 := hfunct3
      exact accepted_funct7 hop .add .sub ⟨hfield, rfl⟩ ⟨hfield, rfl⟩ (.inl hfield) h
    · exact haccept (.shift .sll) ‹_› rfl (by decide) (by decide) (Option.some.inj h)
    · exact haccept .slt ‹_› rfl (by decide) (by decide) (Option.some.inj h)
    · exact haccept .sltu ‹_› rfl (by decide) (by decide) (Option.some.inj h)
    · exact haccept .xor ‹_› rfl (by decide) (by decide) (Option.some.inj h)
    · rename_i hfunct3
      have hfield : (fieldsOf word).funct3 = 5 := hfunct3
      exact accepted_funct7 hop (.shift .srl) (.shift .sra) ⟨hfield, rfl⟩ ⟨hfield, rfl⟩
        (.inr hfield) h
    · exact haccept .or ‹_› rfl (by decide) (by decide) (Option.some.inj h)
    · exact haccept .and ‹_› rfl (by decide) (by decide) (Option.some.inj h)
  · split at h
    · rename_i hclass
      have hclass1 : (fieldsOf word).funct7 &&& 3 = 1 := hclass
      have haccept : ∀ op : MulDivOp, (instructionDecodingPerType word .R).funct3 = op.funct3 →
          registerTranslator (mulDivIndicator op) (instructionDecodingPerType word .R) = e →
          ∃ m, Accepts word e m := by
        rintro op hfunct3 rfl
        refine ⟨.mulDiv op, ⟨rfl, trivial⟩, ?_⟩
        rw [regular_iff_op hop]
        constructor
        · rintro ⟨-, -, h7⟩
          refine ⟨fun hzero => ?_, fun _ => h7⟩
          rw [hclass1] at hzero
          exact absurd hzero (by decide)
        · intro hregular
          exact ⟨hop, hfunct3, hregular.2 hclass1⟩
      have h' := Option.some.inj h
      unfold riscvMulDivInstructionsTranslationEntry at h'
      split at h'
      · exact haccept .mul ‹_› h'
      · exact haccept .mulh ‹_› h'
      · exact haccept .mulhsu ‹_› h'
      · exact haccept .mulhu ‹_› h'
      · exact haccept .div ‹_› h'
      · exact haccept .divu ‹_› h'
      · exact haccept .rem ‹_› h'
      · exact haccept .remu ‹_› h'
    · cases h

theorem accepted_amo (hop : (fieldsOf word).opcode = 0b0101111)
    (h : Vmm.translate word pc = some e) : ∃ m, Accepts word e m := by
  rw [translate_amo hop] at h
  split at h
  · rename_i hmem
    obtain rfl := Option.some.inj h
    have haccept : ∀ op : AmoOp, (fieldsOf word).funct7 >>> 2 = op.funct5.setWidth 7 →
        op.funct5 ∉ [0x10, 0x14, 0x18, 0x1c] → (op = .lr ↔ op.funct5 = 2) →
        ∃ m, Accepts word (riscvAmoTranslator (instructionDecodingPerType word .R)) m := by
      intro op hslot hpresent hlr
      have hfunct5 : (fieldsOf word).funct5 = op.funct5 := by
        unfold Fields.funct5
        rw [hslot]
        simp
      refine ⟨.amo op, ⟨rfl, ?_⟩, ?_⟩
      · show some ((fieldsOf word).funct7.setWidth 32 >>> 2) = _
        rw [funct5_param, hfunct5]
      · rw [regular_iff_amo hop, RegularAmo, hfunct5, Mnemonic.Encodes, hlr, hfunct5]
        constructor
        · rintro ⟨-, hfunct3, -, hrs2⟩
          exact ⟨fun _ => ⟨hfunct3, hrs2⟩, fun habsent => absurd habsent hpresent⟩
        · rintro ⟨hregular, -⟩
          exact ⟨hop, (hregular hmem).1, rfl, (hregular hmem).2⟩
    have hseven := hmem
    simp only [amoFunct5s, List.mem_cons, List.not_mem_nil, or_false] at hseven
    rcases hseven with h0 | h1 | h2 | h3 | h4 | h8 | hc
    · exact haccept (.rmw .add) h0 (by decide) (by decide)
    · exact haccept (.rmw .swap) h1 (by decide) (by decide)
    · exact haccept .lr h2 (by decide) (by decide)
    · exact haccept .sc h3 (by decide) (by decide)
    · exact haccept (.rmw .xor) h4 (by decide) (by decide)
    · exact haccept (.rmw .or) h8 (by decide) (by decide)
    · exact haccept (.rmw .and) hc (by decide) (by decide)
  · cases h

/-- `riscv_funct3_000_translator` tests `funct7` or `rs2` or both, and never `rs1` and `rd`. -/
theorem accepted_funct3000 (hop : (fieldsOf word).opcode = 0b1110011)
    (hfunct3 : (fieldsOf word).funct3 = 0) (h : Vmm.translate word pc = some e) :
    ∃ m, Accepts word e m := by
  have hregular : Regular (fieldsOf word) ↔ RegularSystem (fieldsOf word) :=
    (regular_iff_system hop).trans ⟨fun h => h hfunct3, fun h _ => h⟩
  have haccept : ∀ op : SystemOp, (fieldsOf word).rs2 = op.rs2 → e.indicator = systemIndicator op →
      (RegularSystem (fieldsOf word) ↔
        (fieldsOf word).funct7 = op.funct7 ∧ (fieldsOf word).rs1 = 0 ∧ (fieldsOf word).rd = 0) →
      ∃ m, Accepts word e m := by
    intro op hrs2 hind hiff
    refine ⟨.system op, ⟨hind, trivial⟩, ?_⟩
    rw [hregular, hiff]
    constructor
    · rintro ⟨-, -, h7, -, h1, hd⟩
      exact ⟨h7, h1, hd⟩
    · rintro ⟨h7, h1, hd⟩
      exact ⟨hop, hfunct3, h7, hrs2, h1, hd⟩
  -- an instruction whose `funct7` was tested leaves `rs1` and `rd` open
  have hreturn : ∀ op : SystemOp, op = .wfi ∨ op = .mret ∨ op = .sret →
      (fieldsOf word).rs2 = op.rs2 → (fieldsOf word).funct7 = op.funct7 →
      e.indicator = systemIndicator op → ∃ m, Accepts word e m := by
    intro op hkind hrs2 hfunct7 hind
    refine haccept op hrs2 hind ?_
    rw [and_iff_right hfunct7]
    apply regularSystem_return
    · rw [hfunct7]
      rcases hkind with rfl | rfl | rfl <;> decide
    · rw [hrs2]
      rcases hkind with rfl | rfl | rfl <;> decide
    · rw [hrs2, hfunct7]
      rcases hkind with rfl | rfl | rfl <;> decide
  rw [translate_funct3000 hop hfunct3] at h
  split_ifs at h with hsfence hwfi hwfi7 hebreak hr2 hmret hsret hecall
  · obtain rfl := Option.some.inj h
    refine ⟨.sfenceVma, ⟨rfl, trivial⟩, ?_⟩
    rw [hregular, regularSystem_sfence hsfence]
    exact ⟨fun h => h.2.2.2, fun hrd => ⟨hop, hfunct3, hsfence, hrd⟩⟩
  · exact hreturn .wfi (.inl rfl) hwfi hwfi7 (by rw [← Option.some.inj h]; rfl)
  · exact haccept .ebreak hebreak (by rw [← Option.some.inj h]; rfl)
      (regularSystem_call hsfence (.inr hebreak))
  · exact hreturn .mret (.inr (.inl rfl)) hr2 hmret (by rw [← Option.some.inj h]; rfl)
  · exact hreturn .sret (.inr (.inr rfl)) hr2 hsret (by rw [← Option.some.inj h]; rfl)
  · exact haccept .ecall hecall (by rw [← Option.some.inj h]; rfl)
      (regularSystem_call hsfence (.inl hecall))

theorem accepted_csr (hop : (fieldsOf word).opcode = 0b1110011)
    (hfunct3 : (fieldsOf word).funct3 ≠ 0)
    (h : riscvSupervisorLevelInstructionsTranslationEntry word pc = some e) :
    ∃ m, Accepts word e m := by
  have hregular : Regular (fieldsOf word) :=
    (regular_iff_system hop).mpr fun hzero => absurd hzero hfunct3
  have haccept : ∀ op : CsrOp, (fieldsOf word).funct3 = op.funct3 →
      riscvGenericCsrInstructionsTranslator word = e → ∃ m, Accepts word e m := by
    rintro op hfield rfl
    exact ⟨.csr op, ⟨rfl, word, rfl, hfield⟩, fun _ => hregular, fun _ => ⟨hop, hfield⟩⟩
  have hcases : ∀ funct3 : BitVec 3, funct3 ≠ 0 → funct3 ≠ 4 →
      ∃ op : CsrOp, funct3 = op.funct3 := by
    intro funct3 h0 h4
    have hseven : ∀ x : BitVec 3, x ≠ 0 → x ≠ 4 →
        x = 1 ∨ x = 2 ∨ x = 3 ∨ x = 5 ∨ x = 6 ∨ x = 7 := by decide
    rcases hseven funct3 h0 h4 with rfl | rfl | rfl | rfl | rfl | rfl
    · exact ⟨.csrrw, rfl⟩
    · exact ⟨.csrrs, rfl⟩
    · exact ⟨.csrrc, rfl⟩
    · exact ⟨.csrrwi, rfl⟩
    · exact ⟨.csrrsi, rfl⟩
    · exact ⟨.csrrci, rfl⟩
  have hentry : riscvSupervisorLevelInstructionsTranslationEntry word pc =
      if (fieldsOf word).funct3 = 4 then none
      else some (riscvGenericCsrInstructionsTranslator word) := if_neg hfunct3
  rw [hentry] at h
  split at h
  · cases h
  · rename_i hfour
    obtain ⟨op, hop'⟩ := hcases _ hfunct3 hfour
    exact haccept op hop' (Option.some.inj h)

/-- Every block that is emitted is for one instruction, rightly so for the regular words. -/
theorem translate_accepted (h : Vmm.translate word pc = some e) : ∃ m, Accepts word e m := by
  have hslot := (translate_slot word pc).symm.trans h
  split at hslot
  · rename_i hop
    obtain rfl := Option.some.inj hslot
    have hregular : Regular (fieldsOf word) := regular_of_opcode (by rw [hop]; decide)
    exact ⟨.lui, ⟨rfl, trivial⟩, fun _ => hregular, fun _ => hop⟩
  · rename_i hop
    obtain rfl := Option.some.inj hslot
    have hregular : Regular (fieldsOf word) := regular_of_opcode (by rw [hop]; decide)
    exact ⟨.auipc, ⟨rfl, trivial⟩, fun _ => hregular, fun _ => hop⟩
  · rename_i hop
    obtain rfl := Option.some.inj hslot
    have hregular : Regular (fieldsOf word) := regular_of_opcode (by rw [hop]; decide)
    exact ⟨.jal, ⟨rfl, trivial⟩, fun _ => hregular, fun _ => hop⟩
  · rename_i hop
    obtain rfl := Option.some.inj hslot
    refine ⟨.jalr, ⟨rfl, trivial⟩, ?_⟩
    rw [regular_iff_jalr hop]
    exact ⟨fun h => h.2, fun h => ⟨hop, h⟩⟩
  · exact accepted_opImm ‹_› hslot
  · obtain ⟨op, hop⟩ := accepted_store ‹_› hslot
    exact ⟨_, hop⟩
  · obtain ⟨op, hop⟩ := accepted_load ‹_› hslot
    exact ⟨_, hop⟩
  · obtain ⟨op, hop⟩ := accepted_branch ‹_› hslot
    exact ⟨_, hop⟩
  · exact accepted_op ‹_› hslot
  · exact accepted_fence ‹_› hslot
  · rename_i hop
    by_cases hfunct3 : (fieldsOf word).funct3 = 0
    · exact accepted_funct3000 hop hfunct3 h
    · exact accepted_csr hop hfunct3 hslot
  · exact accepted_amo ‹_› h
  · cases hslot

end Accepted

/-! ## Words the tables reject -/

/-- Where only the untested fields are irregular, the word is not rejected. -/
theorem regular_of_rejected {word pc : Word} (hnone : Vmm.translate word pc = none)
    (h : ∀ m : Mnemonic, ¬m.Encodes (fieldsOf word)) : Regular (fieldsOf word) := by
  have hslot := (translate_slot word pc).symm.trans hnone
  refine ⟨fun hop => ?_, fun hop => ?_, fun hop => ?_, fun hop => ?_, fun hop hfunct3 => ?_⟩
  · rw [hop] at hslot
    cases hslot
  · rw [hop] at hslot
    have hentry : riscvArithmeticImmediateInstructionsTranslationEntry word = none := hslot
    unfold riscvArithmeticImmediateInstructionsTranslationEntry at hentry
    simp only at hentry
    split at hentry <;> try cases hentry
    split at hentry <;> cases hentry
  · rw [hop] at hslot
    have hentry : riscvArithmeticInstructionsTranslationEntry word = none := hslot
    unfold riscvArithmeticInstructionsTranslationEntry at hentry
    constructor
    · intro hclass hne0 hne5
      have hdec : (instructionDecodingPerType word .R).funct7 &&& 3 = 0 := hclass
      simp only [hdec, if_true] at hentry
      unfold riscvArithmeticInstructionsClass0TranslationEntry at hentry
      split at hentry <;> first
        | cases hentry
        | exact absurd ‹_› hne0
        | exact absurd ‹_› hne5
    · intro hclass
      have hdec : (instructionDecodingPerType word .R).funct7 &&& 3 = 1 := hclass
      simp only [hdec] at hentry
      cases hentry
  · rw [translate_amo hop] at hnone
    constructor
    · intro hmem
      rw [if_pos hmem] at hnone
      cases hnone
    · intro habsent hfunct3
      have hencodes : ∀ op : AmoOp, (fieldsOf word).funct5 = op.funct5 → op ≠ .lr → False :=
        fun op hfunct5 hne => h (.amo op) ⟨hop, hfunct3, hfunct5, fun hlr => absurd hlr hne⟩
      simp only [List.mem_cons, List.not_mem_nil, or_false] at habsent
      rcases habsent with h10 | h14 | h18 | h1c
      · exact hencodes .amomin h10 (by decide)
      · exact hencodes .amomax h14 (by decide)
      · exact hencodes .amominu h18 (by decide)
      · exact hencodes .amomaxu h1c (by decide)
  · rw [translate_funct3000 hop hfunct3] at hnone
    split_ifs at hnone with hsfence hwfi hwfi7 hebreak hr2 hmret hsret hecall
    · refine ⟨fun h9 => absurd h9 hsfence, ?_, ?_⟩
      · rintro - (h0 | h1)
        · exact absurd (hwfi.symm.trans h0) (by decide)
        · exact absurd (hwfi.symm.trans h1) (by decide)
      · rintro (⟨h2, -⟩ | ⟨-, h8⟩)
        · exact absurd (hwfi.symm.trans h2) (by decide)
        · exact absurd h8 hwfi7
    · refine ⟨fun h9 => absurd h9 hsfence, ?_, ?_⟩
      · rintro - (h0 | h1)
        · exact absurd (hr2.symm.trans h0) (by decide)
        · exact absurd h1 hebreak
      · rintro (⟨-, h18 | h8⟩ | ⟨h5, -⟩)
        · exact absurd h18 hmret
        · exact absurd h8 hsret
        · exact absurd h5 hwfi
    · refine ⟨fun h9 => absurd h9 hsfence, ?_, ?_⟩
      · rintro - (h0 | h1)
        · exact absurd h0 hecall
        · exact absurd h1 hebreak
      · rintro (⟨h2, -⟩ | ⟨h5, -⟩)
        · exact absurd h2 hr2
        · exact absurd h5 hwfi

/-- A regular word that encodes an instruction encodes one with a slot. -/
theorem not_missing {f : Fields} (h : Regular f) {m : Mnemonic} (hm : m.Encodes f) :
    ¬Missing m := by
  have hpresent : ∀ op : AmoOp, (Mnemonic.amo op).Encodes f →
      op.funct5 ∉ [0x10, 0x14, 0x18, 0x1c] := by
    rintro op ⟨hop, hfunct3, hfunct5, -⟩ habsent
    exact (h.amo hop).2 (hfunct5 ▸ habsent) hfunct3
  rintro (rfl | rfl | rfl | rfl)
  · exact hpresent _ hm (by decide)
  · exact hpresent _ hm (by decide)
  · exact hpresent _ hm (by decide)
  · exact hpresent _ hm (by decide)

/-! ## The dispatch -/

/-- The word is translated as the instructions it encodes, and rejected if there is none. -/
structure DecodesExactly (word : Word) : Prop where
  selects : ∀ pc m, (∃ e, Vmm.translate word pc = some e ∧ Selects e m) ↔ m.Encodes (fieldsOf word)
  rejects : ∀ pc, (∀ m : Mnemonic, ¬m.Encodes (fieldsOf word)) → Vmm.translate word pc = none

/-- The dispatch is exact for the regular words and for no others. -/
theorem dispatch_exact_iff (word : Word) : DecodesExactly word ↔ Regular (fieldsOf word) := by
  constructor
  · intro hexact
    cases htr : Vmm.translate word 0 with
    | none =>
        apply regular_of_rejected htr
        intro m hm
        obtain ⟨e, he, -⟩ := (hexact.selects 0 m).mpr hm
        rw [htr] at he
        cases he
    | some e =>
        obtain ⟨m, hselects, hiff⟩ := translate_accepted htr
        exact hiff.mp ((hexact.selects 0 m).mp ⟨e, htr, hselects⟩)
  · intro hregular
    refine ⟨fun pc m => ⟨?_, fun hm => translate_encoded hm (not_missing hregular hm) pc⟩, ?_⟩
    · rintro ⟨e, htr, hselects⟩
      obtain ⟨m', hselects', hiff⟩ := translate_accepted htr
      rw [selects_unique hselects hselects']
      exact hiff.mpr hregular
    · intro pc hnone
      cases htr : Vmm.translate word pc with
      | none => rfl
      | some e =>
          obtain ⟨m, -, hiff⟩ := translate_accepted htr
          exact absurd (hiff.mpr hregular) (hnone m)

/-- `amomin.w x1, x2, (x1)` is rejected, and a reserved word accepted as `slli`. -/
theorem dispatch_misses_amomin : ¬DecodesExactly 0x8020a0af ∧ ¬DecodesExactly 0x02009093 := by
  constructor
  · intro hexact
    have hm : (Mnemonic.amo .amomin).Encodes (fieldsOf 0x8020a0af) := by
      simp only [Mnemonic.Encodes]
      decide
    obtain ⟨e, htr, -⟩ := (hexact.selects 0 _).mpr hm
    have hnone : Vmm.translate 0x8020a0af 0 = none := by decide
    rw [hnone] at htr
    cases htr
  · intro hexact
    have htr : Vmm.translate 0x02009093 0 =
        some (emitNext .slli [0x20, indexParam 1, indexParam 1]) := by decide
    have hm := (hexact.selects 0 (.shiftImm .sll)).mp ⟨_, htr, rfl, trivial⟩
    exact absurd hm.2.2 (by decide)

end Zelda.Proofs.Dispatch
