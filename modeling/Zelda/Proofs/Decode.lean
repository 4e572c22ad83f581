import Mathlib.Tactic.IntervalCases
import Zelda.Isa.Encodings
import Zelda.Lib.Bits
import Zelda.Vmm.Translators
/-!
# Decoding

The decoder takes the encodings of the instruction set apart into the fields
they were built from, and the translators ask for the block that goes with
the instruction.
-/

namespace Zelda.Proofs.Decode

open Zelda.Vmm
open Zelda.Isa
open Zelda.Lib.Bits

/-! ## Sign extension -/

theorem getLsbD_signExtendLoop (sign ret : Word) (hsign : ∀ i, 0 < i → sign.getLsbD i = false)
    (bit n i : Nat) (hi : i < 32) :
    (signExtendLoop sign ret bit n).getLsbD i =
      (ret.getLsbD i || (decide (bit ≤ i ∧ i < bit + n) && sign.getLsbD 0)) := by
  induction n generalizing ret bit with
  | zero => simp [signExtendLoop]
  | succ n ih =>
      rw [signExtendLoop, ih, BitVec.getLsbD_or, BitVec.getLsbD_shiftLeft]
      rcases Nat.lt_trichotomy i bit with hlt | rfl | hgt
      · rw [decide_eq_false (p := bit + 1 ≤ i ∧ i < bit + 1 + n) (by omega),
          decide_eq_false (p := bit ≤ i ∧ i < bit + (n + 1)) (by omega)]
        simp [hlt]
      · have hin : i ≤ i ∧ i < i + (n + 1) := by omega
        simp [hi, hin]
      · have hzero : sign.getLsbD (i - bit) = false := hsign _ (by omega)
        have hiff : decide (bit + 1 ≤ i ∧ i < bit + 1 + n) =
            decide (bit ≤ i ∧ i < bit + (n + 1)) := by
          rw [decide_eq_decide]
          omega
        rw [hiff]
        simp [hzero]

/-- `sign_extend32` at the top bit of a field is sign extension of the field. -/
theorem signExtend32_setWidth {k : Nat} (x : BitVec (k + 1)) (hk : k < 32) :
    signExtend32 (x.setWidth 32) k = x.signExtend 32 := by
  have hbit : ∀ i, (((x.setWidth 32) >>> k) &&& 1).getLsbD i =
      (decide (i = 0) && x.getLsbD k) := by
    intro i
    rw [BitVec.getLsbD_and, BitVec.getLsbD_ushiftRight, BitVec.getLsbD_setWidth]
    by_cases hi : i = 0
    · subst hi
      simp [hk]
    · simp [hi]
  apply BitVec.eq_of_getLsbD_eq
  intro i hi
  unfold signExtend32
  rw [getLsbD_signExtendLoop _ _ (fun j hj => by rw [hbit]; simp [Nat.ne_of_gt hj]) _ _ _ hi, hbit,
    BitVec.getLsbD_signExtend, BitVec.getLsbD_setWidth, BitVec.msb_eq_getLsbD_last]
  by_cases hlt : i < k + 1
  · rcases Nat.lt_or_eq_of_le (Nat.le_of_lt_succ hlt) with hlt' | rfl
    · have hout : ¬(k ≤ i ∧ i < k + (32 - k)) := by omega
      simp [hi, hlt, hout]
    · simp [hi]
  · have hin : k ≤ i ∧ i < k + (32 - k) := by omega
    have hx : x.getLsbD i = false := BitVec.getLsbD_of_ge x i (by omega)
    simp [hi, hlt, hin, hx]

/-! ## Fields -/

section Fields

variable (funct7 : BitVec 7) (rs2 rs1 rd : RegIndex) (funct3 : BitVec 3) (opcode : BitVec 7)

theorem opcodeOf_eq {word : Word} (h : word.toNat % 2 ^ 7 = opcode.toNat) :
    opcodeOf word = opcode := by
  apply BitVec.eq_of_toNat_eq
  rw [opcodeOf, BitVec.toNat_setWidth, h]

theorem decode_uType (imm : BitVec 20) :
    opcodeOf (uType imm rd opcode) = opcode ∧
      instructionDecodingPerType (uType imm rd opcode) .U =
        { rdIndex := rd, imm := imm.setWidth 32 } := by
  have h0 := imm.isLt
  have h1 := rd.isLt
  have h2 := opcode.isLt
  have hw : (uType imm rd opcode).toNat =
      (imm.toNat * 2 ^ 5 + rd.toNat) * 2 ^ 7 + opcode.toNat := by
    simp only [uType, toNat_append]
  refine ⟨opcodeOf_eq opcode (by omega), ?_⟩
  rw [instructionDecodingPerType, field_eq (y := rd) (by omega),
    masked_eq (y := imm) rfl (by decide) (by omega)]

theorem decode_iType (imm : BitVec 12) :
    opcodeOf (iType imm rs1 funct3 rd opcode) = opcode ∧
      instructionDecodingPerType (iType imm rs1 funct3 rd opcode) .I =
        { rdIndex := rd, funct3 := funct3, rs1Index := rs1, imm := imm.setWidth 32 } := by
  have h0 := imm.isLt
  have h1 := rs1.isLt
  have h2 := funct3.isLt
  have h3 := rd.isLt
  have h4 := opcode.isLt
  have hw : (iType imm rs1 funct3 rd opcode).toNat = (((imm.toNat * 2 ^ 5 + rs1.toNat) * 2 ^ 3 +
      funct3.toNat) * 2 ^ 5 + rd.toNat) * 2 ^ 7 + opcode.toNat := by
    simp only [iType, toNat_append]
  refine ⟨opcodeOf_eq opcode (by omega), ?_⟩
  rw [instructionDecodingPerType, field_eq (y := rd) (by omega), field_eq (y := funct3) (by omega),
    field_eq (y := rs1) (by omega), masked_eq (y := imm) rfl (by decide) (by omega)]

theorem decode_rType :
    opcodeOf (rType funct7 rs2 rs1 funct3 rd opcode) = opcode ∧
      instructionDecodingPerType (rType funct7 rs2 rs1 funct3 rd opcode) .R =
        { funct3 := funct3, rdIndex := rd, rs1Index := rs1, rs2Index := rs2, funct7 := funct7 } := by
  have h0 := funct7.isLt
  have h1 := rs2.isLt
  have h2 := rs1.isLt
  have h3 := funct3.isLt
  have h4 := rd.isLt
  have h5 := opcode.isLt
  have hw : (rType funct7 rs2 rs1 funct3 rd opcode).toNat =
      ((((funct7.toNat * 2 ^ 5 + rs2.toNat) * 2 ^ 5 + rs1.toNat) * 2 ^ 3 + funct3.toNat) * 2 ^ 5 +
        rd.toNat) * 2 ^ 7 + opcode.toNat := by
    simp only [rType, toNat_append]
  refine ⟨opcodeOf_eq opcode (by omega), ?_⟩
  rw [instructionDecodingPerType, field_eq (y := funct3) (by omega), field_eq (y := rd) (by omega),
    field_eq (y := rs1) (by omega), field_eq (y := rs2) (by omega), field_eq (y := funct7) (by omega)]

/-- The four pieces of a branch offset. -/
theorem branchOffset_eq (offset : BitVec 12) :
    (offset.extractLsb' 0 4).setWidth 32 ||| (offset.extractLsb' 4 6).setWidth 32 <<< 4 |||
      (offset.extractLsb' 10 1).setWidth 32 <<< 10 |||
      (offset.extractLsb' 11 1).setWidth 32 <<< 11 = offset.setWidth 32 := by
  apply BitVec.eq_of_getLsbD_eq
  intro i hi
  simp only [BitVec.getLsbD_or, BitVec.getLsbD_shiftLeft, BitVec.getLsbD_setWidth,
    BitVec.getLsbD_extractLsb', hi, decide_true, Bool.true_and]
  interval_cases i <;> simp

theorem decode_bType (offset : BitVec 12) :
    opcodeOf (bType offset rs2 rs1 funct3 opcode) = opcode ∧
      instructionDecodingPerType (bType offset rs2 rs1 funct3 opcode) .B =
        { funct3 := funct3, rs1Index := rs1, rs2Index := rs2, imm := offset.setWidth 32 } := by
  have h0 := (offset.extractLsb' 11 1).isLt
  have h1 := (offset.extractLsb' 4 6).isLt
  have h2 := rs2.isLt
  have h3 := rs1.isLt
  have h4 := funct3.isLt
  have h5 := (offset.extractLsb' 0 4).isLt
  have h6 := (offset.extractLsb' 10 1).isLt
  have h7 := opcode.isLt
  have hw : (bType offset rs2 rs1 funct3 opcode).toNat =
      ((((((((offset.extractLsb' 11 1).toNat * 2 ^ 6 + (offset.extractLsb' 4 6).toNat) * 2 ^ 5 +
        rs2.toNat) * 2 ^ 5 + rs1.toNat) * 2 ^ 3 + funct3.toNat) * 2 ^ 4 +
        (offset.extractLsb' 0 4).toNat) * 2 ^ 1 + (offset.extractLsb' 10 1).toNat) * 2 ^ 7 +
        opcode.toNat) := by
    simp only [bType, toNat_append]
  refine ⟨opcodeOf_eq opcode (by omega), ?_⟩
  rw [← branchOffset_eq, instructionDecodingPerType, field_eq (y := funct3) (by omega),
    field_eq (y := rs1) (by omega), field_eq (y := rs2) (by omega),
    masked_eq (y := offset.extractLsb' 0 4) rfl (by decide) (by omega),
    masked_eq (y := offset.extractLsb' 4 6) rfl (by decide) (by omega),
    masked_eq (y := offset.extractLsb' 10 1) rfl (by decide) (by omega),
    masked_eq (y := offset.extractLsb' 11 1) rfl (by decide) (by omega)]

/-- The four pieces of a jump offset. -/
theorem jumpOffset_eq (offset : BitVec 20) :
    (offset.extractLsb' 0 10).setWidth 32 ||| (offset.extractLsb' 10 1).setWidth 32 <<< 10 |||
      (offset.extractLsb' 11 8).setWidth 32 <<< 11 |||
      (offset.extractLsb' 19 1).setWidth 32 <<< 19 = offset.setWidth 32 := by
  apply BitVec.eq_of_getLsbD_eq
  intro i hi
  simp only [BitVec.getLsbD_or, BitVec.getLsbD_shiftLeft, BitVec.getLsbD_setWidth,
    BitVec.getLsbD_extractLsb', hi, decide_true, Bool.true_and]
  interval_cases i <;> simp

theorem decode_jType (offset : BitVec 20) :
    opcodeOf (jType offset rd opcode) = opcode ∧
      instructionDecodingPerType (jType offset rd opcode) .UJ =
        { rdIndex := rd, imm := offset.setWidth 32 } := by
  have h0 := (offset.extractLsb' 19 1).isLt
  have h1 := (offset.extractLsb' 0 10).isLt
  have h2 := (offset.extractLsb' 10 1).isLt
  have h3 := (offset.extractLsb' 11 8).isLt
  have h4 := rd.isLt
  have h5 := opcode.isLt
  have hw : (jType offset rd opcode).toNat =
      (((((offset.extractLsb' 19 1).toNat * 2 ^ 10 + (offset.extractLsb' 0 10).toNat) * 2 ^ 1 +
        (offset.extractLsb' 10 1).toNat) * 2 ^ 8 + (offset.extractLsb' 11 8).toNat) * 2 ^ 5 +
        rd.toNat) * 2 ^ 7 + opcode.toNat := by
    simp only [jType, toNat_append]
  refine ⟨opcodeOf_eq opcode (by omega), ?_⟩
  rw [← jumpOffset_eq, instructionDecodingPerType, field_eq (y := rd) (by omega),
    masked_eq (y := offset.extractLsb' 0 10) rfl (by decide) (by omega),
    masked_eq (y := offset.extractLsb' 10 1) rfl (by decide) (by omega),
    masked_eq (y := offset.extractLsb' 11 8) rfl (by decide) (by omega),
    masked_eq (y := offset.extractLsb' 19 1) rfl (by decide) (by omega)]

end Fields

/-! ## Translation -/

/-- The block that goes with an arithmetic operation. -/
def immIndicator : ImmOp → Indicator
  | .addi => .addi
  | .slti => .slti
  | .sltiu => .sltiu
  | .xori => .xori
  | .ori => .ori
  | .andi => .andi

def shiftImmIndicator : ShiftOp → Indicator
  | .sll => .slli
  | .srl => .srli
  | .sra => .srai

def regIndicator : RegOp → Indicator
  | .add => .add
  | .sub => .sub
  | .slt => .slt
  | .sltu => .sltu
  | .xor => .xor
  | .or => .or
  | .and => .and
  | .shift .sll => .sll
  | .shift .srl => .srl
  | .shift .sra => .sra

def branchIndicator : BranchOp → Indicator
  | .beq => .beq
  | .bne => .bne
  | .blt => .blt
  | .bge => .bge
  | .bltu => .bltu
  | .bgeu => .bgeu

def loadIndicator : LoadOp → Indicator
  | .lb => .lb
  | .lh => .lh
  | .lw => .lw
  | .lbu => .lbu
  | .lhu => .lhu

def storeIndicator : StoreOp → Indicator
  | .sb => .sb
  | .sh => .sh
  | .sw => .sw

def mulDivIndicator : MulDivOp → Indicator
  | .mul => .mul
  | .mulh => .mulh
  | .mulhsu => .mulhsu
  | .mulhu => .mulhu
  | .div => .div
  | .divu => .divu
  | .rem => .rem
  | .remu => .remu

/-- What is emitted for an instruction at `pc`. -/
def emitted (pc : Word) : Instr → Emitted
  | .lui rd imm => emitNext .lui [imm.setWidth 32, indexParam rd]
  | .auipc rd imm => emitNext .auipc [imm.setWidth 32, indexParam rd, pc]
  | .opImm op rd rs1 imm =>
      emitNext (immIndicator op) [imm.signExtend 32, indexParam rs1, indexParam rd]
  | .shiftImm op rd rs1 shamt =>
      emitNext (shiftImmIndicator op)
        [(op.funct7 ++ shamt).setWidth 32, indexParam rs1, indexParam rd]
  | .opReg op rd rs1 rs2 =>
      emitNext (regIndicator op) [indexParam rs1, indexParam rs2, indexParam rd]
  | .branch op rs1 rs2 offset =>
      emitStop (branchIndicator op)
        [indexParam rs1, indexParam rs2, pc + (offset ++ 0#1).signExtend 32]
  | .jal rd offset =>
      emitStop .jal [indexParam rd, pc + 4, pc + (offset ++ 0#1).signExtend 32]
  | .jalr rd rs1 imm =>
      emitStop .jalr [indexParam rd, pc + 4, indexParam rs1, imm.signExtend 32]

/-- The offset a translator rebuilds from the half-word count. -/
theorem signExtend32_offset {k : Nat} (offset : BitVec k) (hk : k < 32) :
    signExtend32 (offset.setWidth 32 <<< 1) k = (offset ++ 0#1).signExtend 32 := by
  rw [← signExtend32_setWidth (offset ++ 0#1) hk, setWidth_append]
  simp

theorem translate_immediate (op : ImmOp) (rd rs1 : RegIndex) (imm : BitVec 12) (pc : Word) :
    Vmm.translate (Instr.opImm op rd rs1 imm).encode pc =
      some (emitted pc (.opImm op rd rs1 imm)) := by
  obtain ⟨hop, hdec⟩ := decode_iType rs1 rd op.funct3 0b0010011 imm
  have himm := signExtend32_setWidth imm (by decide)
  have htr : Vmm.translate (Instr.opImm op rd rs1 imm).encode pc =
      riscvArithmeticImmediateInstructionsTranslationEntry (Instr.opImm op rd rs1 imm).encode := by
    simp only [Vmm.translate, Instr.encode, hop]
    rfl
  rw [htr, riscvArithmeticImmediateInstructionsTranslationEntry, Instr.encode, hdec]
  cases op <;> simp only [ImmOp.funct3, himm] <;> rfl

theorem translate_shiftImmediate (op : ShiftOp) (rd rs1 : RegIndex) (shamt : BitVec 5)
    (pc : Word) :
    Vmm.translate (Instr.shiftImm op rd rs1 shamt).encode pc =
      some (emitted pc (.shiftImm op rd rs1 shamt)) := by
  obtain ⟨hop, hdec⟩ := decode_iType rs1 rd op.funct3 0b0010011 (op.funct7 ++ shamt)
  have htr : Vmm.translate (Instr.shiftImm op rd rs1 shamt).encode pc =
      riscvArithmeticImmediateInstructionsTranslationEntry
        (Instr.shiftImm op rd rs1 shamt).encode := by
    simp only [Vmm.translate, Instr.encode, hop]
    rfl
  rw [htr, riscvArithmeticImmediateInstructionsTranslationEntry, Instr.encode, hdec]
  -- bit 10 of the immediate tells the arithmetic from the logical right shift
  have hbit : ∀ s : BitVec 5, (0x00#7 ++ s).setWidth 32 &&& 0x400#32 = 0 ∧
      (0x20#7 ++ s).setWidth 32 &&& 0x400#32 ≠ 0 := by decide
  cases op with
  | sll => rfl
  | srl => exact if_pos (hbit shamt).1
  | sra => exact if_neg (hbit shamt).2

theorem translate_register (op : RegOp) (rd rs1 rs2 : RegIndex) (pc : Word) :
    Vmm.translate (Instr.opReg op rd rs1 rs2).encode pc = some (emitted pc (.opReg op rd rs1 rs2)) := by
  obtain ⟨hop, hdec⟩ := decode_rType op.funct7 rs2 rs1 rd op.funct3 0b0110011
  have htr : Vmm.translate (Instr.opReg op rd rs1 rs2).encode pc =
      riscvArithmeticInstructionsTranslationEntry (Instr.opReg op rd rs1 rs2).encode := by
    simp only [Vmm.translate, Instr.encode, hop]
    rfl
  have hclass : op.funct7 &&& 3 = 0 := by
    cases op with
    | shift op => cases op <;> decide
    | add | sub | slt | sltu | xor | or | and => decide
  rw [htr, riscvArithmeticInstructionsTranslationEntry, Instr.encode, hdec]
  refine (if_pos hclass).trans ?_
  cases op with
  | shift op => cases op <;> rfl
  | add | sub | slt | sltu | xor | or | and => rfl

theorem translate_branch (op : BranchOp) (rs1 rs2 : RegIndex) (offset : BitVec 12) (pc : Word) :
    Vmm.translate (Instr.branch op rs1 rs2 offset).encode pc =
      some (emitted pc (.branch op rs1 rs2 offset)) := by
  obtain ⟨hop, hdec⟩ := decode_bType rs2 rs1 op.funct3 0b1100011 offset
  have hoffset := signExtend32_offset offset (by decide)
  have htr : Vmm.translate (Instr.branch op rs1 rs2 offset).encode pc =
      riscvBranchInstructionsTranslationEntry (Instr.branch op rs1 rs2 offset).encode pc := by
    simp only [Vmm.translate, Instr.encode, hop]
    rfl
  rw [htr, riscvBranchInstructionsTranslationEntry, Instr.encode, hdec]
  cases op <;> simp only [BranchOp.funct3, branchTranslator, hoffset] <;> rfl

/-- The translators emit, for every encoding, the block of the instruction encoded. -/
theorem translate_encode (i : Instr) (pc : Word) :
    Vmm.translate i.encode pc = some (emitted pc i) := by
  cases i with
  | lui rd imm =>
      obtain ⟨hop, hdec⟩ := decode_uType rd 0b0110111 imm
      simp only [Vmm.translate, Instr.encode, hop, riscvLuiTranslator, hdec]
      rfl
  | auipc rd imm =>
      obtain ⟨hop, hdec⟩ := decode_uType rd 0b0010111 imm
      simp only [Vmm.translate, Instr.encode, hop, riscvAuipcTranslator, hdec]
      rfl
  | opImm op rd rs1 imm => exact translate_immediate op rd rs1 imm pc
  | shiftImm op rd rs1 shamt => exact translate_shiftImmediate op rd rs1 shamt pc
  | opReg op rd rs1 rs2 => exact translate_register op rd rs1 rs2 pc
  | branch op rs1 rs2 offset => exact translate_branch op rs1 rs2 offset pc
  | jal rd offset =>
      obtain ⟨hop, hdec⟩ := decode_jType rd 0b1101111 offset
      have hoffset := signExtend32_offset offset (by decide)
      simp only [Vmm.translate, Instr.encode, hop, riscvJalTranslator, hdec, hoffset]
      rfl
  | jalr rd rs1 imm =>
      obtain ⟨hop, hdec⟩ := decode_iType rs1 rd 0 0b1100111 imm
      have himm := signExtend32_setWidth imm (by decide)
      simp only [Vmm.translate, Instr.encode, hop, riscvJalrTranslator, hdec, himm]
      rfl

end Zelda.Proofs.Decode
