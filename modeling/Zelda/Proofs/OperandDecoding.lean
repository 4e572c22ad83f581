import Zelda.Isa.Formats
import Zelda.Proofs.Decode
/-!
# Decoding inverts the formats

For each of the six formats the decoder returns the operands a word was
encoded from, and every word is the encoding of what the decoder returns.
-/

namespace Zelda.Proofs.OperandDecoding

open Zelda.Vmm
open Zelda.Isa
open Zelda.Lib.Bits
open Zelda.Proofs.Decode

/-! ## What the translators take from a decoding -/

/-- The immediate as the translators of a format use it. -/
def usedImmediate (d : Decoding) : EncodingType → Word
  | .U => d.imm <<< 12
  | .I | .S => signExtend32 d.imm 11
  | .B => signExtend32 (d.imm <<< 1) 12
  | .UJ => signExtend32 (d.imm <<< 1) 20
  | .R => 0

/-- The decoding has the operands of the format. -/
def Agrees (o : Operands) (d : Decoding) : EncodingType → Prop
  | .U | .UJ => d.rdIndex = o.rd
  | .I => d.rdIndex = o.rd ∧ d.funct3 = o.funct3 ∧ d.rs1Index = o.rs1
  | .S | .B => d.funct3 = o.funct3 ∧ d.rs1Index = o.rs1 ∧ d.rs2Index = o.rs2
  | .R => d.rdIndex = o.rd ∧ d.funct3 = o.funct3 ∧ d.rs1Index = o.rs1 ∧ d.rs2Index = o.rs2 ∧
      d.funct7 = o.funct7

/-- The operands of a word, as it was decoded. -/
def decoded (word : Word) (type : EncodingType) : Operands :=
  let d := instructionDecodingPerType word type
  { opcode := opcodeOf word
    rd := d.rdIndex
    rs1 := d.rs1Index
    rs2 := d.rs2Index
    funct3 := d.funct3
    funct7 := d.funct7
    imm := (usedImmediate d type).toInt }

/-! ## Stores -/

section Store

variable (rs2 rs1 : RegIndex) (funct3 : BitVec 3) (opcode : BitVec 7)

/-- The two pieces of a store offset. -/
theorem storeOffset_eq (imm : BitVec 12) :
    (imm.extractLsb' 0 5).setWidth 32 ||| (imm.extractLsb' 5 7).setWidth 32 <<< 5 =
      imm.setWidth 32 := by
  apply BitVec.eq_of_getLsbD_eq
  intro i hi
  simp only [BitVec.getLsbD_or, BitVec.getLsbD_shiftLeft, BitVec.getLsbD_setWidth,
    BitVec.getLsbD_extractLsb', hi, decide_true, Bool.true_and]
  interval_cases i <;> simp

theorem decode_sType (imm : BitVec 12) :
    opcodeOf (sType imm rs2 rs1 funct3 opcode) = opcode ∧
      instructionDecodingPerType (sType imm rs2 rs1 funct3 opcode) .S =
        { funct3 := funct3, rs1Index := rs1, rs2Index := rs2, imm := imm.setWidth 32 } := by
  have h0 := (imm.extractLsb' 5 7).isLt
  have h1 := rs2.isLt
  have h2 := rs1.isLt
  have h3 := funct3.isLt
  have h4 := (imm.extractLsb' 0 5).isLt
  have h5 := opcode.isLt
  have hw : (sType imm rs2 rs1 funct3 opcode).toNat =
      (((((imm.extractLsb' 5 7).toNat * 2 ^ 5 + rs2.toNat) * 2 ^ 5 + rs1.toNat) * 2 ^ 3 +
        funct3.toNat) * 2 ^ 5 + (imm.extractLsb' 0 5).toNat) * 2 ^ 7 + opcode.toNat := by
    simp only [sType, toNat_append]
  refine ⟨opcodeOf_eq opcode (by omega), ?_⟩
  rw [← storeOffset_eq, instructionDecodingPerType, field_eq (y := funct3) (by omega),
    field_eq (y := rs1) (by omega), field_eq (y := rs2) (by omega),
    masked_eq (y := imm.extractLsb' 0 5) rfl (by decide) (by omega),
    masked_eq (y := imm.extractLsb' 5 7) rfl (by decide) (by omega)]

end Store

/-! ## Immediates -/

theorem toInt_ofInt_of_range {n : Nat} {imm : Int} (hlow : -2 ^ n ≤ imm) (hhigh : imm < 2 ^ n) :
    (BitVec.ofInt (n + 1) imm).toInt = imm := by
  rw [BitVec.toInt_ofInt]
  apply Int.bmod_eq_of_le_mul_two
  · push_cast
    rw [pow_succ]
    omega
  · push_cast
    rw [pow_succ]
    omega

/-- `sign_extend32` of a field is its signed value. -/
theorem toInt_signExtend32 {k : Nat} (x : BitVec (k + 1)) (hk : k < 32) :
    (signExtend32 (x.setWidth 32) k).toInt = x.toInt := by
  rw [signExtend32_setWidth x hk, BitVec.toInt_signExtend_of_le (by omega)]

/-- `sign_extend32` of an offset without its zero bit is twice its signed value. -/
theorem toInt_signExtend32_offset {k : Nat} (x : BitVec k) (hk : k < 32) :
    (signExtend32 (x.setWidth 32 <<< 1) k).toInt = 2 * x.toInt := by
  rw [signExtend32_offset x hk, BitVec.toInt_signExtend_of_le (by omega), BitVec.toInt_append_zero]
  rfl

/-- The upper immediate is its signed value times `2 ^ 12`. -/
theorem toInt_upper (x : BitVec 20) : (x.setWidth 32 <<< 12).toInt = 2 ^ 12 * x.toInt := by
  have happend : x.setWidth 32 <<< 12 = (x ++ 0#12) := by
    have h := setWidth_append (w := 32) x 0#12
    simpa using h.symm
  rw [happend, BitVec.toInt_append_zero]

section Used

variable {d : Decoding}

theorem usedImmediate_upper {x : BitVec 20} (h : d.imm = x.setWidth 32) :
    (usedImmediate d .U).toInt = 2 ^ 12 * x.toInt := by
  rw [usedImmediate, h, toInt_upper]

theorem usedImmediate_immediate {x : BitVec 12} (h : d.imm = x.setWidth 32) :
    (usedImmediate d .I).toInt = x.toInt := by
  rw [usedImmediate, h]
  exact toInt_signExtend32 x (by decide)

theorem usedImmediate_store {x : BitVec 12} (h : d.imm = x.setWidth 32) :
    (usedImmediate d .S).toInt = x.toInt := by
  rw [usedImmediate, h]
  exact toInt_signExtend32 x (by decide)

theorem usedImmediate_branch {x : BitVec 12} (h : d.imm = x.setWidth 32) :
    (usedImmediate d .B).toInt = 2 * x.toInt := by
  rw [usedImmediate, h, toInt_signExtend32_offset x (by decide)]

theorem usedImmediate_jump {x : BitVec 20} (h : d.imm = x.setWidth 32) :
    (usedImmediate d .UJ).toInt = 2 * x.toInt := by
  rw [usedImmediate, h, toInt_signExtend32_offset x (by decide)]

end Used

/-! ## Every word has every format -/

section Words

variable (word : Word)

theorem exists_uType : ∃ imm rd opcode, word = uType imm rd opcode := by
  refine ⟨word.extractLsb' 12 20, word.extractLsb' 7 5, word.extractLsb' 0 7, ?_⟩
  apply BitVec.eq_of_getLsbD_eq
  intro i hi
  simp only [uType, BitVec.getLsbD_append, BitVec.getLsbD_extractLsb']
  interval_cases i <;> simp

theorem exists_iType : ∃ imm rs1 funct3 rd opcode, word = iType imm rs1 funct3 rd opcode := by
  refine ⟨word.extractLsb' 20 12, word.extractLsb' 15 5, word.extractLsb' 12 3,
    word.extractLsb' 7 5, word.extractLsb' 0 7, ?_⟩
  apply BitVec.eq_of_getLsbD_eq
  intro i hi
  simp only [iType, BitVec.getLsbD_append, BitVec.getLsbD_extractLsb']
  interval_cases i <;> simp

theorem exists_sType : ∃ imm rs2 rs1 funct3 opcode, word = sType imm rs2 rs1 funct3 opcode := by
  refine ⟨word.extractLsb' 25 7 ++ word.extractLsb' 7 5, word.extractLsb' 20 5,
    word.extractLsb' 15 5, word.extractLsb' 12 3, word.extractLsb' 0 7, ?_⟩
  apply BitVec.eq_of_getLsbD_eq
  intro i hi
  simp only [sType, BitVec.getLsbD_append, BitVec.getLsbD_extractLsb']
  interval_cases i <;> simp

theorem exists_bType :
    ∃ offset rs2 rs1 funct3 opcode, word = bType offset rs2 rs1 funct3 opcode := by
  refine ⟨word.extractLsb' 31 1 ++ word.extractLsb' 7 1 ++ word.extractLsb' 25 6 ++
    word.extractLsb' 8 4, word.extractLsb' 20 5, word.extractLsb' 15 5, word.extractLsb' 12 3,
    word.extractLsb' 0 7, ?_⟩
  apply BitVec.eq_of_getLsbD_eq
  intro i hi
  simp only [bType, BitVec.getLsbD_append, BitVec.getLsbD_extractLsb']
  interval_cases i <;> simp

theorem exists_jType : ∃ offset rd opcode, word = jType offset rd opcode := by
  refine ⟨word.extractLsb' 31 1 ++ word.extractLsb' 12 8 ++ word.extractLsb' 20 1 ++
    word.extractLsb' 21 10, word.extractLsb' 7 5, word.extractLsb' 0 7, ?_⟩
  apply BitVec.eq_of_getLsbD_eq
  intro i hi
  simp only [jType, BitVec.getLsbD_append, BitVec.getLsbD_extractLsb']
  interval_cases i <;> simp

theorem exists_rType :
    ∃ funct7 rs2 rs1 funct3 rd opcode, word = rType funct7 rs2 rs1 funct3 rd opcode := by
  refine ⟨word.extractLsb' 25 7, word.extractLsb' 20 5, word.extractLsb' 15 5,
    word.extractLsb' 12 3, word.extractLsb' 7 5, word.extractLsb' 0 7, ?_⟩
  apply BitVec.eq_of_getLsbD_eq
  intro i hi
  simp only [rType, BitVec.getLsbD_append, BitVec.getLsbD_extractLsb']
  interval_cases i <;> simp

end Words

/-! ## The two directions -/

/-- Decoding what was encoded. -/
theorem decode_encode (o : Operands) (type : EncodingType) (himm : Representable type o.imm) :
    opcodeOf (o.encode type) = o.opcode ∧
      Agrees o (instructionDecodingPerType (o.encode type) type) type ∧
      (usedImmediate (instructionDecodingPerType (o.encode type) type) type).toInt = o.imm := by
  cases type with
  | U =>
      obtain ⟨hlow, hhigh, hdvd⟩ := himm
      obtain ⟨hopcode, hdecode⟩ := decode_uType o.rd o.opcode (BitVec.ofInt 20 (o.imm / 2 ^ 12))
      rw [Operands.encode, hdecode]
      refine ⟨hopcode, rfl, ?_⟩
      rw [usedImmediate_upper rfl, @toInt_ofInt_of_range 19 _ (by omega) (by omega)]
      omega
  | I =>
      obtain ⟨hlow, hhigh⟩ := himm
      obtain ⟨hopcode, hdecode⟩ :=
        decode_iType o.rs1 o.rd o.funct3 o.opcode (BitVec.ofInt 12 o.imm)
      rw [Operands.encode, hdecode]
      refine ⟨hopcode, ⟨rfl, rfl, rfl⟩, ?_⟩
      exact (usedImmediate_immediate rfl).trans (toInt_ofInt_of_range hlow hhigh)
  | S =>
      obtain ⟨hlow, hhigh⟩ := himm
      obtain ⟨hopcode, hdecode⟩ :=
        decode_sType o.rs2 o.rs1 o.funct3 o.opcode (BitVec.ofInt 12 o.imm)
      rw [Operands.encode, hdecode]
      refine ⟨hopcode, ⟨rfl, rfl, rfl⟩, ?_⟩
      exact (usedImmediate_store rfl).trans (toInt_ofInt_of_range hlow hhigh)
  | B =>
      obtain ⟨hlow, hhigh, hdvd⟩ := himm
      obtain ⟨hopcode, hdecode⟩ :=
        decode_bType o.rs2 o.rs1 o.funct3 o.opcode (BitVec.ofInt 12 (o.imm / 2))
      rw [Operands.encode, hdecode]
      refine ⟨hopcode, ⟨rfl, rfl, rfl⟩, ?_⟩
      rw [usedImmediate_branch rfl, @toInt_ofInt_of_range 11 _ (by omega) (by omega)]
      omega
  | UJ =>
      obtain ⟨hlow, hhigh, hdvd⟩ := himm
      obtain ⟨hopcode, hdecode⟩ := decode_jType o.rd o.opcode (BitVec.ofInt 20 (o.imm / 2))
      rw [Operands.encode, hdecode]
      refine ⟨hopcode, rfl, ?_⟩
      rw [usedImmediate_jump rfl, @toInt_ofInt_of_range 19 _ (by omega) (by omega)]
      omega
  | R =>
      obtain ⟨hopcode, hdecode⟩ := decode_rType o.funct7 o.rs2 o.rs1 o.rd o.funct3 o.opcode
      rw [Operands.encode, hdecode]
      refine ⟨hopcode, ⟨rfl, rfl, rfl, rfl, rfl⟩, ?_⟩
      exact himm.symm

/-- Encoding what was decoded. -/
theorem encode_decoded (word : Word) (type : EncodingType) :
    Representable type (decoded word type).imm ∧ (decoded word type).encode type = word := by
  cases type with
  | U =>
      obtain ⟨imm, rd, opcode, rfl⟩ := exists_uType word
      obtain ⟨hopcode, hdecode⟩ := decode_uType rd opcode imm
      have himm : (decoded (uType imm rd opcode) .U).imm = 2 ^ 12 * imm.toInt := by
        rw [decoded, usedImmediate_upper (by rw [hdecode])]
      have hlow := BitVec.le_toInt imm
      have hhigh := BitVec.toInt_lt (x := imm)
      refine ⟨?_, ?_⟩
      · rw [himm]
        exact ⟨by omega, by omega, ⟨_, rfl⟩⟩
      · rw [Operands.encode, himm, Int.mul_ediv_cancel_left _ (by decide), BitVec.ofInt_toInt]
        simp only [decoded, hdecode, hopcode]
  | I =>
      obtain ⟨imm, rs1, funct3, rd, opcode, rfl⟩ := exists_iType word
      obtain ⟨hopcode, hdecode⟩ := decode_iType rs1 rd funct3 opcode imm
      have himm : (decoded (iType imm rs1 funct3 rd opcode) .I).imm = imm.toInt := by
        rw [decoded, usedImmediate_immediate (by rw [hdecode])]
      have hlow := BitVec.le_toInt imm
      have hhigh := BitVec.toInt_lt (x := imm)
      refine ⟨?_, ?_⟩
      · rw [himm]
        exact ⟨by omega, by omega⟩
      · rw [Operands.encode, himm, BitVec.ofInt_toInt]
        simp only [decoded, hdecode, hopcode]
  | S =>
      obtain ⟨imm, rs2, rs1, funct3, opcode, rfl⟩ := exists_sType word
      obtain ⟨hopcode, hdecode⟩ := decode_sType rs2 rs1 funct3 opcode imm
      have himm : (decoded (sType imm rs2 rs1 funct3 opcode) .S).imm = imm.toInt := by
        rw [decoded, usedImmediate_store (by rw [hdecode])]
      have hlow := BitVec.le_toInt imm
      have hhigh := BitVec.toInt_lt (x := imm)
      refine ⟨?_, ?_⟩
      · rw [himm]
        exact ⟨by omega, by omega⟩
      · rw [Operands.encode, himm, BitVec.ofInt_toInt]
        simp only [decoded, hdecode, hopcode]
  | B =>
      obtain ⟨offset, rs2, rs1, funct3, opcode, rfl⟩ := exists_bType word
      obtain ⟨hopcode, hdecode⟩ := decode_bType rs2 rs1 funct3 opcode offset
      have himm : (decoded (bType offset rs2 rs1 funct3 opcode) .B).imm = 2 * offset.toInt := by
        rw [decoded, usedImmediate_branch (by rw [hdecode])]
      have hlow := BitVec.le_toInt offset
      have hhigh := BitVec.toInt_lt (x := offset)
      refine ⟨?_, ?_⟩
      · rw [himm]
        exact ⟨by omega, by omega, ⟨_, rfl⟩⟩
      · rw [Operands.encode, himm, Int.mul_ediv_cancel_left _ (by decide), BitVec.ofInt_toInt]
        simp only [decoded, hdecode, hopcode]
  | UJ =>
      obtain ⟨offset, rd, opcode, rfl⟩ := exists_jType word
      obtain ⟨hopcode, hdecode⟩ := decode_jType rd opcode offset
      have himm : (decoded (jType offset rd opcode) .UJ).imm = 2 * offset.toInt := by
        rw [decoded, usedImmediate_jump (by rw [hdecode])]
      have hlow := BitVec.le_toInt offset
      have hhigh := BitVec.toInt_lt (x := offset)
      refine ⟨?_, ?_⟩
      · rw [himm]
        exact ⟨by omega, by omega, ⟨_, rfl⟩⟩
      · rw [Operands.encode, himm, Int.mul_ediv_cancel_left _ (by decide), BitVec.ofInt_toInt]
        simp only [decoded, hdecode, hopcode]
  | R =>
      obtain ⟨funct7, rs2, rs1, funct3, rd, opcode, rfl⟩ := exists_rType word
      obtain ⟨hopcode, hdecode⟩ := decode_rType funct7 rs2 rs1 rd funct3 opcode
      refine ⟨rfl, ?_⟩
      simp only [Operands.encode, decoded, hdecode, hopcode]

/--
The decoder inverts each format on its operands, and each format inverts the
decoder on every word.
-/
theorem operand_decoding_inverts :
    (∀ (o : Operands) (type : EncodingType), Representable type o.imm →
      opcodeOf (o.encode type) = o.opcode ∧
        Agrees o (instructionDecodingPerType (o.encode type) type) type ∧
        (usedImmediate (instructionDecodingPerType (o.encode type) type) type).toInt = o.imm) ∧
    ∀ (word : Word) (type : EncodingType),
      Representable type (decoded word type).imm ∧ (decoded word type).encode type = word :=
  ⟨decode_encode, encode_decoded⟩

/-- `beq x1, x2, .-4`. -/
theorem operand_decoding_inverts_beq :
    ∃ o : Operands, o.encode .B = 0xfe208ee3 ∧ o.imm = -4 ∧
      (usedImmediate (instructionDecodingPerType 0xfe208ee3 .B) .B).toInt = -4 := by
  let o : Operands :=
    { opcode := 0x63, rd := 0, rs1 := 1, rs2 := 2, funct3 := 0, funct7 := 0, imm := -4 }
  have hword : o.encode .B = 0xfe208ee3 := by decide
  have himm : Representable .B o.imm := ⟨by decide, by decide, by decide⟩
  obtain ⟨-, -, hused⟩ := operand_decoding_inverts.1 o .B himm
  rw [hword] at hused
  exact ⟨o, hword, rfl, hused⟩

end Zelda.Proofs.OperandDecoding
