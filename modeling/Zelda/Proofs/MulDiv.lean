import Zelda.Isa.Rv32m
import Zelda.Proofs.Instructions
/-!
# Multiplication and division

The host's multiply instructions give every half of every product.  Its divide
instructions fault on operands for which the instruction set has a result, and
the templates guard against some of these only.
-/

namespace Zelda.Proofs.MulDiv

open Zelda.Vmm
open Zelda.Isa
open Zelda.Lib.Effect
open Zelda.Lib.X86
open Zelda.Proofs.Decode
open Zelda.Proofs.FallThrough
open Zelda.Proofs.Instructions
open Zelda.Proofs.Prefetch
open Zelda.Proofs.Templates

/-! ## Products -/

theorem toNat_ofInt32 (z : Int) : ((BitVec.ofInt 32 z).toNat : Int) = z % 2 ^ 32 := by
  rw [BitVec.toNat_ofInt]
  omega

theorem toNat_ofInt64 (z : Int) : ((BitVec.ofInt 64 z).toNat : Int) = z % 2 ^ 64 := by
  rw [BitVec.toNat_ofInt]
  omega

theorem setWidth_ofInt64 (z : Int) : (BitVec.ofInt 64 z).setWidth 32 = BitVec.ofInt 32 z := by
  have hwide := toNat_ofInt64 z
  have hlow := toNat_ofInt32 z
  apply BitVec.eq_of_toNat_eq
  rw [BitVec.toNat_setWidth]
  omega

theorem high_ofInt64 (z : Int) :
    ((BitVec.ofInt 64 z) >>> 32).setWidth 32 = highHalf z := by
  have hwide := toNat_ofInt64 z
  have hhigh := toNat_ofInt32 (z / 2 ^ 32)
  apply BitVec.eq_of_toNat_eq
  rw [BitVec.toNat_setWidth, BitVec.toNat_ushiftRight, Nat.shiftRight_eq_div_pow, highHalf]
  omega

theorem setWidth_ofInt128 (z : Int) : (BitVec.ofInt 128 z).setWidth 64 = BitVec.ofInt 64 z := by
  have hwide : ((BitVec.ofInt 128 z).toNat : Int) = z % 2 ^ 128 := by
    rw [BitVec.toNat_ofInt]
    omega
  have hlow := toNat_ofInt64 z
  apply BitVec.eq_of_toNat_eq
  rw [BitVec.toNat_setWidth]
  omega

theorem signExtend_mul (a b : Word) :
    a.signExtend 64 * b.signExtend 64 = BitVec.ofInt 64 (a.toInt * b.toInt) := by
  rw [BitVec.ofInt_mul]
  rfl

theorem setWidth_mul (a b : Word) :
    a.setWidth 64 * b.setWidth 64 = BitVec.ofInt 64 (a.toNat * b.toNat) := by
  rw [BitVec.ofInt_mul, BitVec.ofInt_natCast, BitVec.ofInt_natCast, BitVec.ofNat_toNat,
    BitVec.ofNat_toNat]

/-- The 128-bit signed product of a sign-extended and a zero-extended word. -/
theorem mixed_mul (a b : Word) :
    (((a.signExtend 64).signExtend 128) * ((b.setWidth 64).signExtend 128)).setWidth 64 =
      BitVec.ofInt 64 (a.toInt * b.toNat) := by
  have ha : (a.signExtend 64).toInt = a.toInt := BitVec.toInt_signExtend_of_le (by decide)
  have hb : (b.setWidth 64).toInt = b.toNat := by
    have hlt := b.isLt
    rw [BitVec.toInt_eq_toNat_of_msb, BitVec.toNat_setWidth, Nat.mod_eq_of_lt (by omega)]
    rw [BitVec.msb_eq_false_iff_two_mul_lt, BitVec.toNat_setWidth]
    omega
  have ha' : (a.signExtend 64).signExtend 128 = BitVec.ofInt 128 a.toInt := congrArg _ ha
  have hb' : (b.setWidth 64).signExtend 128 = BitVec.ofInt 128 b.toNat := congrArg _ hb
  rw [ha', hb', ← BitVec.ofInt_mul, setWidth_ofInt128]

theorem get32_setEdxEax_rax (c : Cpu) (product : DWord) :
    (c.setEdxEax product).get32 .rax = product.setWidth 32 := by
  rw [Cpu.setEdxEax, get32_set32_of_ne _ (by decide), get32_set32_self]

theorem get32_setEdxEax_rdx (c : Cpu) (product : DWord) :
    (c.setEdxEax product).get32 .rdx = (product >>> 32).setWidth 32 :=
  get32_set32_self _ _ _

/-! ## Dividends -/

/-- A double word put together from its halves. -/
theorem halves_eq (x : DWord) :
    (((x >>> 32).setWidth 32).setWidth 64 <<< 32 ||| (x.setWidth 32).setWidth 64) = x := by
  apply BitVec.eq_of_getLsbD_eq
  intro i hi
  simp only [BitVec.getLsbD_or, BitVec.getLsbD_shiftLeft, BitVec.getLsbD_setWidth,
    BitVec.getLsbD_ushiftRight, hi, decide_true, Bool.true_and]
  by_cases hlow : i < 32
  · simp [hlow]
  · have hsub : 32 + (i - 32) = i := by omega
    have hlt : i - 32 < 32 := by omega
    have hlt' : i - 32 < 64 := by omega
    simp [hlow, hsub, hlt, hlt']

/-- `edx:eax` after the sign of `eax` has been spread over `edx`. -/
theorem signedDividend_eq (a : Word) :
    ((((a.signExtend 64) >>> 32).setWidth 32).setWidth 64 <<< 32 ||| a.setWidth 64) =
      a.signExtend 64 := by
  have hlow : (a.signExtend 64).setWidth 32 = a := by
    rw [BitVec.signExtend, setWidth_ofInt64, BitVec.ofInt_toInt]
  have hhalves := halves_eq (a.signExtend 64)
  rw [hlow] at hhalves
  exact hhalves

/-- The only signed quotient that does not fit a word. -/
theorem tdiv_overflow {a b : Word} (hb : b ≠ 0) :
    (a.toInt.tdiv b.toInt < -2 ^ 31 ∨ 2 ^ 31 ≤ a.toInt.tdiv b.toInt) ↔
      a = INT_MIN ∧ b = BitVec.allOnes 32 := by
  have ha := BitVec.le_toInt a
  have ha' := @BitVec.toInt_lt _ a
  have hb0 : b.toInt ≠ 0 := by
    intro h
    exact hb (BitVec.eq_of_toInt_eq h)
  constructor
  · intro h
    have habs : (a.toInt.tdiv b.toInt).natAbs = a.toInt.natAbs / b.toInt.natAbs :=
      Int.natAbs_tdiv _ _
    have hle : a.toInt.natAbs / b.toInt.natAbs ≤ a.toInt.natAbs := Nat.div_le_self _ _
    have hone : b.toInt.natAbs = 1 := by
      by_contra hne
      have htwo : 2 ≤ b.toInt.natAbs := by omega
      have hhalf : a.toInt.natAbs / b.toInt.natAbs ≤ a.toInt.natAbs / 2 :=
        Nat.div_le_div_left htwo (by decide)
      omega
    rcases Int.natAbs_eq_iff.mp hone with hpos | hneg
    · simp only [Nat.cast_one] at hpos
      rw [hpos, Int.tdiv_one] at h
      omega
    · simp only [Nat.cast_one] at hneg
      rw [hneg, Int.tdiv_neg, Int.tdiv_one] at h
      refine ⟨BitVec.eq_of_toInt_eq ?_, BitVec.eq_of_toInt_eq hneg⟩
      have hmin : INT_MIN.toInt = -2 ^ 31 := by decide
      omega
  · rintro ⟨rfl, rfl⟩
    decide

/-- The operands on which a template computes a result. -/
def Guarded (a b : Word) : MulDivOp → Prop
  | .div => ¬(a = INT_MIN ∧ b = BitVec.allOnes 32)
  | .rem => b ≠ 0 ∧ ¬(a = INT_MIN ∧ b = BitVec.allOnes 32)
  | .remu => b ≠ 0
  | .mul | .mulh | .mulhsu | .mulhu | .divu => True

instance (a b : Word) (op : MulDivOp) : Decidable (Guarded a b op) := by
  cases op <;> unfold Guarded <;> infer_instance

/-! ## Templates -/

section Templates

variable {hc : HostCode} {param : Nat → Word} {c : Cpu} {vm : Vm} {rs1 rs2 rd : RegIndex}
variable {Q : End × Cpu → Vm → Prop} {E : Abort → Vm → Prop}
variable (hready : Ready hc c) (h0 : param 0 = indexParam rs1) (h1 : param 1 = indexParam rs2)
  (h2 : param 2 = indexParam rd)

include hready h0 h1 h2

/-- `multiply` leaves the product of `rs2` and `rs1` in `edx:eax`. -/
theorem runsTo_multiplyOp {multiply : Insn VmmFn} {product : DWord} {result : Reg} {value : Word}
    (hmultiply : ∀ c' : Cpu, c'.get32 .rdx = vm.hart.registers rs1 →
      c'.get32 .rax = vm.hart.registers rs2 →
      step (hostEnv hc) param multiply c' vm = .ok (.next (c'.setEdxEax product).noFlags) vm)
    (hresult : result ≠ .rdi) (hvalue : ∀ c' : Cpu, (c'.setEdxEax product).get32 result = value) :
    RunsTo hc param (multiplyOp multiply result) c vm (retired vm.hart rd value) := by
  unfold RunsTo multiplyOp
  simp only [List.append_assoc]
  refine execWp_loadOperand hready h0 rfl fun c₁ hready₁ hrs1 _ => ?_
  refine execWp_loadOperand hready₁ h1 rfl fun c₂ hready₂ hrs2 hsame => ?_
  have hrdx : c₂.get32 .rdx = vm.hart.registers rs1 := by
    rw [hsame.get32 (by decide), get32_of_get hrs1]
  rw [List.singleton_append, execWp_next (hmultiply c₂ hrdx (get32_of_get hrs2))]
  refine execWp_retireResult ((hready₂.set rfl _).set rfl _).noFlags h2 hresult ?_ fun _ => rfl
  rw [get32_noFlags, hvalue]

theorem runsTo_mulhsu :
    RunsTo hc param (templateBody .mulhsu) c vm (retired vm.hart rd
      (highHalf ((vm.hart.registers rs1).toInt * (vm.hart.registers rs2).toNat))) := by
  unfold RunsTo templateBody
  simp only [List.append_assoc]
  refine execWp_loadOperand hready h0 rfl fun c₁ hready₁ hrs1 _ => ?_
  rw [List.singleton_append, execWp_movsxd, get32_of_get hrs1]
  refine execWp_loadOperand (hready₁.set rfl _) h1 rfl fun c₂ hready₂ hrs2 hsame => ?_
  have hrax : c₂.get .rax = (vm.hart.registers rs1).signExtend 64 := by
    rw [hsame .rax (by decide), get_set_self]
  rw [List.cons_append, List.singleton_append, execWp_imulq, execWp_shrq]
  refine execWp_retireResult ((((hready₂.set rfl _).set rfl _).noFlags.set rfl _).noFlags) h2
    (by decide) ?_ fun _ => rfl
  have hproduct : (c₂.rax.signExtend 128 * (c₂.get .rdx).signExtend 128).setWidth 64 =
      BitVec.ofInt 64 ((vm.hart.registers rs1).toInt * (vm.hart.registers rs2).toNat) := by
    rw [show c₂.rax = c₂.get .rax from rfl, hrax, hrs2]
    exact mixed_mul _ _
  rw [get32_noFlags, Cpu.get32, get_set_self, get_noFlags, get_set_of_ne _ (by decide),
    get_set_self, hproduct]
  exact high_ofInt64 _

omit h2 in
theorem execWp_signedDividend {rest : Code}
    (h : ∀ c', Ready hc c' → c'.edxEax = (vm.hart.registers rs1).signExtend 64 →
      c'.get32 .rbx = vm.hart.registers rs2 → ExecWp (hostEnv hc) param rest c' Q E vm) :
    ExecWp (hostEnv hc) param (signedDividend ++ (loadOperand 1 .rbx ++ rest)) c Q E vm := by
  unfold signedDividend
  simp only [List.append_assoc]
  refine execWp_loadOperand hready h0 rfl fun c₁ hready₁ hrs1 _ => ?_
  rw [List.cons_append, List.singleton_append, execWp_movsxd, execWp_shrq, get32_of_get hrs1]
  refine execWp_loadOperand ((hready₁.set rfl _).set rfl _).noFlags h1 rfl
    fun c₂ hready₂ hrs2 hsame => ?_
  refine h c₂ hready₂ ?_ (get32_of_get hrs2)
  have hrax : c₂.get32 .rax = vm.hart.registers rs1 := by
    rw [hsame.get32 (by decide), get32_noFlags, Cpu.get32, get_set_of_ne _ (by decide),
      get_set_of_ne _ (by decide), ← Cpu.get32, get32_of_get hrs1]
  have hrdx : c₂.get32 .rdx = (((vm.hart.registers rs1).signExtend 64) >>> 32).setWidth 32 := by
    rw [hsame.get32 (by decide), get32_noFlags, Cpu.get32, get_set_self, get_set_self]
  rw [Cpu.edxEax, hrax, hrdx]
  exact signedDividend_eq _

omit h2 in
theorem execWp_unsignedDividend {rest : Code}
    (h : ∀ c', Ready hc c' → c'.edxEax = (vm.hart.registers rs1).setWidth 64 →
      c'.get32 .rbx = vm.hart.registers rs2 → ExecWp (hostEnv hc) param rest c' Q E vm) :
    ExecWp (hostEnv hc) param (unsignedDividend ++ (loadOperand 1 .rbx ++ rest)) c Q E vm := by
  unfold unsignedDividend
  simp only [List.append_assoc]
  refine execWp_loadOperand hready h0 rfl fun c₁ hready₁ hrs1 _ => ?_
  rw [List.singleton_append, execWp_alu]
  refine execWp_loadOperand (hready₁.set rfl _).noFlags h1 rfl fun c₂ hready₂ hrs2 hsame => ?_
  refine h c₂ hready₂ ?_ (get32_of_get hrs2)
  have hrax : c₂.get32 .rax = vm.hart.registers rs1 := by
    rw [hsame.get32 (by decide), get32_noFlags, get32_set32_of_ne _ (by decide), get32_of_get hrs1]
  have hrdx : c₂.get32 .rdx = 0 := by
    rw [hsame.get32 (by decide), get32_noFlags, get32_set32_self]
    exact BitVec.xor_self
  rw [Cpu.edxEax, hrax, hrdx]
  simp

omit h0 h1

/-- The zero test in front of a division. -/
theorem execWp_guardedDivide {divide : Insn VmmFn} {b : Word} (hrbx : c.get32 .rbx = b)
    (hzero : b = 0 → ∀ c', Q (.fallThrough, c')
      { vm with hart := retired vm.hart rd (BitVec.allOnes 32) })
    (hdivide : b ≠ 0 → ∀ c', Ready hc c' → c'.edxEax = c.edxEax → c'.get32 .rbx = b →
      ExecWp (hostEnv hc) param (divide :: retireResult .rax) c' Q E vm) :
    ExecWp (hostEnv hc) param
      (.movl (.reg .rbx) .r8 :: .cmpl (.imm 0) .r8 :: .jcc .ne 2 ::
        .movl (.imm 0xffffffff) .rax :: .jmp 1 :: divide :: retireResult .rax) c Q E vm := by
  rw [execWp_movl, execWp_cmpl, execWp_jcc rfl]
  simp only [Operand.value, hrbx, get32_set32_self]
  set f := Flags.ofSub b 0
  have hflag : Cond.ne.holds f = !(b == 0) := by
    rw [← holds_e]
    rfl
  have hready₁ : Ready hc { c.set32 .r8 b with flags := some f } := (hready.set rfl _).setFlags _
  by_cases hb : b = 0
  · have hholds : ¬Cond.ne.holds f = true := by
      rw [hflag, hb]
      decide
    rw [if_neg hholds, execWp_movl, execWp_jmp]
    simp only [List.drop_succ_cons, List.drop_zero]
    refine execWp_retireResult (hready₁.set rfl _) h2 (by decide) ?_ (hzero hb)
    exact get32_set32_self _ _ _
  · have hholds : Cond.ne.holds f = true := by
      rw [hflag]
      simpa using hb
    rw [if_pos hholds]
    simp only [List.drop_succ_cons, List.drop_zero]
    refine hdivide hb _ hready₁ ?_ ?_
    · rfl
    · exact hrbx

/-- A signed division and the store of its result. -/
theorem execWp_idivl_retire {a b : Word} {result : Reg} {value : Word}
    (hdividend : c.edxEax = a.signExtend 64) (hrbx : c.get32 .rbx = b) (hresult : result ≠ .rdi)
    (hvalue : ∀ c' : Cpu, ((c'.set32 .rax (BitVec.ofInt 32 (a.toInt.tdiv b.toInt))).set32 .rdx
      (BitVec.ofInt 32 (a.toInt.tmod b.toInt))).get32 result = value)
    (hfault : b = 0 ∨ a = INT_MIN ∧ b = BitVec.allOnes 32 → E .hostFault vm)
    (hok : b ≠ 0 → ¬(a = INT_MIN ∧ b = BitVec.allOnes 32) →
      ∀ c', Q (.fallThrough, c') { vm with hart := retired vm.hart rd value }) :
    ExecWp (hostEnv hc) param (.idivl .rbx :: retireResult result) c Q E vm := by
  have hwide : (a.signExtend 64).toInt = a.toInt := BitVec.toInt_signExtend_of_le (by decide)
  rw [execWp_idivl, hdividend, hrbx, hwide]
  by_cases hb : b = 0
  · have hzero : b.toInt = 0 := by
      rw [hb]
      rfl
    rw [if_pos (.inl hzero)]
    exact hfault (.inl hb)
  · have hne : b.toInt ≠ 0 := fun h => hb (BitVec.eq_of_toInt_eq h)
    by_cases hover : a = INT_MIN ∧ b = BitVec.allOnes 32
    · rw [if_pos (.inr ((tdiv_overflow hb).mpr hover))]
      exact hfault (.inr hover)
    · have hfits : ¬(b.toInt = 0 ∨ a.toInt.tdiv b.toInt < -2 ^ 31 ∨
          2 ^ 31 ≤ a.toInt.tdiv b.toInt) := by
        rw [tdiv_overflow hb]
        exact fun h => h.elim hne hover
      rw [if_neg hfits]
      refine execWp_retireResult ((hready.set rfl _).set rfl _).noFlags h2 hresult ?_
        (hok hb hover)
      rw [get32_noFlags, hvalue]

/-- An unsigned division and the store of its result. -/
theorem execWp_divl_retire {a b : Word} {result : Reg} {value : Word}
    (hdividend : c.edxEax = a.setWidth 64) (hrbx : c.get32 .rbx = b) (hresult : result ≠ .rdi)
    (hvalue : ∀ c' : Cpu, ((c'.set32 .rax (BitVec.ofNat 32 (a.toNat / b.toNat))).set32 .rdx
      (BitVec.ofNat 32 (a.toNat % b.toNat))).get32 result = value)
    (hfault : b = 0 → E .hostFault vm)
    (hok : b ≠ 0 → ∀ c', Q (.fallThrough, c') { vm with hart := retired vm.hart rd value }) :
    ExecWp (hostEnv hc) param (.divl .rbx :: retireResult result) c Q E vm := by
  have ha := a.isLt
  have hwide : (a.setWidth 64).toNat = a.toNat := by
    rw [BitVec.toNat_setWidth]
    omega
  rw [execWp_divl, hdividend, hrbx, hwide]
  by_cases hb : b = 0
  · have hzero : b.toNat = 0 := by
      rw [hb]
      rfl
    rw [if_pos (.inl hzero)]
    exact hfault hb
  · have hne : b.toNat ≠ 0 := fun h => hb (BitVec.eq_of_toNat_eq h)
    have hle : a.toNat / b.toNat ≤ a.toNat := Nat.div_le_self _ _
    rw [if_neg (by omega)]
    refine execWp_retireResult ((hready.set rfl _).set rfl _).noFlags h2 hresult ?_ (hok hb)
    rw [get32_noFlags, hvalue]

end Templates

/-! ## Instructions -/

def mulDivEmitted (op : MulDivOp) (rd rs1 rs2 : RegIndex) : Emitted :=
  emitNext (mulDivIndicator op) [indexParam rs1, indexParam rs2, indexParam rd]

theorem translate_mulDiv (op : MulDivOp) (rd rs1 rs2 : RegIndex) (pc : Word) :
    Vmm.translate (op.encode rd rs1 rs2) pc = some (mulDivEmitted op rd rs1 rs2) := by
  obtain ⟨hop, hdec⟩ := decode_rType 1 rs2 rs1 rd op.funct3 0b0110011
  have htr : Vmm.translate (op.encode rd rs1 rs2) pc =
      riscvArithmeticInstructionsTranslationEntry (op.encode rd rs1 rs2) := by
    simp only [Vmm.translate, MulDivOp.encode, hop]
    rfl
  have hclass : ¬(1 : BitVec 7) &&& 3 = 0 := by decide
  have hclass' : (1 : BitVec 7) &&& 3 = 1 := by decide
  rw [htr, riscvArithmeticInstructionsTranslationEntry, MulDivOp.encode, hdec]
  refine (if_neg hclass).trans ((if_pos hclass').trans ?_)
  cases op <;> rfl

section Instructions

variable {hc : HostCode} {param : Nat → Word} {c : Cpu} {vm : Vm} {rs1 rs2 rd : RegIndex}
variable {Q : End × Cpu → Vm → Prop} {E : Abort → Vm → Prop}

theorem execWp_of_runsTo {code : Code} {h : Hart} (hrun : RunsTo hc param code c vm h)
    (hQ : ∀ r, Q r { vm with hart := h }) : ExecWp (hostEnv hc) param code c Q E vm := by
  refine wp_mono hrun ?_ fun _ _ hfalse => hfalse.elim
  rintro r t rfl
  exact hQ r

/-- The hart after a multiplication or division with the result of the instruction set. -/
def mulDivRetired (h : Hart) (op : MulDivOp) (rd rs1 rs2 : RegIndex) : Hart :=
  retired h rd (op.eval (h.registers rs1) (h.registers rs2))

section Templates

variable (hready : Ready hc c) (h0 : param 0 = indexParam rs1) (h1 : param 1 = indexParam rs2)
  (h2 : param 2 = indexParam rd)

include hready h0 h1 h2

theorem runsTo_imull {result : Reg} {value : Word} (hresult : result ≠ .rdi)
    (hvalue : ∀ c' : Cpu, (c'.setEdxEax (BitVec.ofInt 64
      ((vm.hart.registers rs1).toInt * (vm.hart.registers rs2).toInt))).get32 result = value) :
    RunsTo hc param (multiplyOp (.imull .rdx) result) c vm (retired vm.hart rd value) := by
  refine runsTo_multiplyOp hready h0 h1 h2 (fun c' hrdx hrax => ?_) hresult hvalue
  rw [← signExtend_mul, BitVec.mul_comm, ← hrdx, ← hrax]
  rfl

theorem runsTo_mull :
    RunsTo hc param (multiplyOp (.mull .rdx) .rdx) c vm
      (mulDivRetired vm.hart .mulhu rd rs1 rs2) := by
  have hmull : ∀ c' : Cpu, c'.get32 .rdx = vm.hart.registers rs1 →
      c'.get32 .rax = vm.hart.registers rs2 →
      step (hostEnv hc) param (.mull .rdx) c' vm = .ok (.next (c'.setEdxEax (BitVec.ofInt 64
        ((vm.hart.registers rs1).toNat * (vm.hart.registers rs2).toNat))).noFlags) vm := by
    intro c' hrdx hrax
    rw [← setWidth_mul, BitVec.mul_comm, ← hrdx, ← hrax]
    rfl
  refine runsTo_multiplyOp hready h0 h1 h2 hmull (by decide) fun c' => ?_
  rw [get32_setEdxEax_rdx, high_ofInt64]
  rfl

theorem execWp_div
    (hok : Guarded (vm.hart.registers rs1) (vm.hart.registers rs2) .div →
      ∀ r, Q r { vm with hart := mulDivRetired vm.hart .div rd rs1 rs2 })
    (hfault : ¬Guarded (vm.hart.registers rs1) (vm.hart.registers rs2) .div → E .hostFault vm) :
    ExecWp (hostEnv hc) param (templateBody .div) c Q E vm := by
  simp only [templateBody, divideOp, List.append_assoc]
  refine execWp_signedDividend hready h0 h1 fun c₁ hready₁ hdividend hrbx => ?_
  refine execWp_guardedDivide hready₁ h2 hrbx (fun hzero c' => ?_)
    fun hne c₂ hready₂ hsame hrbx₂ => ?_
  · have hguarded : Guarded (vm.hart.registers rs1) (vm.hart.registers rs2) .div := by
      rintro ⟨-, hones⟩
      exact absurd (hzero.symm.trans hones) (by decide)
    have hresult := hok hguarded (.fallThrough, c')
    rw [mulDivRetired, MulDivOp.eval, if_pos hzero] at hresult
    exact hresult
  · refine execWp_idivl_retire hready₂ h2 (hsame.trans hdividend) hrbx₂ (by decide)
      (fun _ => (get32_set32_of_ne _ (by decide) _).trans (get32_set32_self _ _ _))
      (fun hbad => hfault ?_) fun _ hfits c' => ?_
    · exact not_not.mpr (hbad.resolve_left hne)
    · have hresult := hok hfits (.fallThrough, c')
      rw [mulDivRetired, MulDivOp.eval, if_neg hne, if_neg hfits] at hresult
      exact hresult

theorem execWp_divu
    (hok : ∀ r, Q r { vm with hart := mulDivRetired vm.hart .divu rd rs1 rs2 }) :
    ExecWp (hostEnv hc) param (templateBody .divu) c Q E vm := by
  simp only [templateBody, divideOp, List.append_assoc]
  refine execWp_unsignedDividend hready h0 h1 fun c₁ hready₁ hdividend hrbx => ?_
  refine execWp_guardedDivide hready₁ h2 hrbx (fun hzero c' => ?_)
    fun hne c₂ hready₂ hsame hrbx₂ => ?_
  · have hresult := hok (.fallThrough, c')
    rw [mulDivRetired, MulDivOp.eval, if_pos hzero] at hresult
    exact hresult
  · refine execWp_divl_retire hready₂ h2 (hsame.trans hdividend) hrbx₂ (by decide)
      (fun _ => (get32_set32_of_ne _ (by decide) _).trans (get32_set32_self _ _ _))
      (fun hzero => absurd hzero hne) fun _ c' => ?_
    have hresult := hok (.fallThrough, c')
    rw [mulDivRetired, MulDivOp.eval, if_neg hne] at hresult
    exact hresult

theorem execWp_rem
    (hok : Guarded (vm.hart.registers rs1) (vm.hart.registers rs2) .rem →
      ∀ r, Q r { vm with hart := mulDivRetired vm.hart .rem rd rs1 rs2 })
    (hfault : ¬Guarded (vm.hart.registers rs1) (vm.hart.registers rs2) .rem → E .hostFault vm) :
    ExecWp (hostEnv hc) param (templateBody .rem) c Q E vm := by
  simp only [templateBody, remainderOp, List.append_assoc]
  refine execWp_signedDividend hready h0 h1 fun c₁ hready₁ hdividend hrbx => ?_
  rw [List.singleton_append]
  refine execWp_idivl_retire hready₁ h2 hdividend hrbx (by decide)
    (fun _ => get32_set32_self _ _ _) (fun hbad => hfault ?_) fun hne hfits c' => ?_
  · rintro ⟨hne, hfits⟩
    exact hbad.elim hne hfits
  · have hresult := hok ⟨hne, hfits⟩ (.fallThrough, c')
    rw [mulDivRetired, MulDivOp.eval, if_neg hne, if_neg hfits] at hresult
    exact hresult

theorem execWp_remu
    (hok : Guarded (vm.hart.registers rs1) (vm.hart.registers rs2) .remu →
      ∀ r, Q r { vm with hart := mulDivRetired vm.hart .remu rd rs1 rs2 })
    (hfault : ¬Guarded (vm.hart.registers rs1) (vm.hart.registers rs2) .remu →
      E .hostFault vm) :
    ExecWp (hostEnv hc) param (templateBody .remu) c Q E vm := by
  simp only [templateBody, remainderOp, List.append_assoc]
  refine execWp_unsignedDividend hready h0 h1 fun c₁ hready₁ hdividend hrbx => ?_
  rw [List.singleton_append]
  refine execWp_divl_retire hready₁ h2 hdividend hrbx (by decide)
    (fun _ => get32_set32_self _ _ _) (fun hzero => hfault (not_not.mpr hzero))
    fun hne c' => ?_
  have hresult := hok hne (.fallThrough, c')
  rw [mulDivRetired, MulDivOp.eval, if_neg hne] at hresult
  exact hresult

end Templates

/-- A template writes the result of its instruction, or faults where it is not guarded. -/
theorem execWp_mulDiv (op : MulDivOp) (hready : Ready hc c)
    (hparams : ParamsOf param (mulDivEmitted op rd rs1 rs2))
    (hok : Guarded (vm.hart.registers rs1) (vm.hart.registers rs2) op →
      ∀ r, Q r { vm with hart := mulDivRetired vm.hart op rd rs1 rs2 })
    (hfault : ¬Guarded (vm.hart.registers rs1) (vm.hart.registers rs2) op → E .hostFault vm) :
    ExecWp (hostEnv hc) param (templateBody (mulDivIndicator op)) c Q E vm := by
  have h0 : param 0 = indexParam rs1 := hparams 0 _ rfl
  have h1 : param 1 = indexParam rs2 := hparams 1 _ rfl
  have h2 : param 2 = indexParam rd := hparams 2 _ rfl
  cases op with
  | mul =>
      refine execWp_of_runsTo (runsTo_imull hready h0 h1 h2 (by decide) fun c' => ?_) (hok trivial)
      rw [get32_setEdxEax_rax, setWidth_ofInt64]
      rfl
  | mulh =>
      refine execWp_of_runsTo (runsTo_imull hready h0 h1 h2 (by decide) fun c' => ?_) (hok trivial)
      rw [get32_setEdxEax_rdx, high_ofInt64]
      rfl
  | mulhsu => exact execWp_of_runsTo (runsTo_mulhsu hready h0 h1 h2) (hok trivial)
  | mulhu => exact execWp_of_runsTo (runsTo_mull hready h0 h1 h2) (hok trivial)
  | div => exact execWp_div hready h0 h1 h2 hok hfault
  | divu => exact execWp_divu hready h0 h1 h2 (hok trivial)
  | rem => exact execWp_rem hready h0 h1 h2 hok hfault
  | remu => exact execWp_remu hready h0 h1 h2 hok hfault

end Instructions

/-- The block ends normally with the result of the instruction set and nothing else changed. -/
def Computes (hc : HostCode) (op : MulDivOp) (rd rs1 rs2 : RegIndex) (param : Nat → Word) (c : Cpu)
    (vm : Vm) : Prop :=
  ∃ r, runBlock hc (mulDivIndicator op) param c vm = .ok r
    { vm with
      hart := withIsaState vm.hart ((isaState vm.hart).writeNext rd
        (op.eval (vm.hart.registers rs1) (vm.hart.registers rs2))) }

theorem computes_iff {hc : HostCode} {op : MulDivOp} {rd rs1 rs2 : RegIndex} {param : Nat → Word}
    {c : Cpu} {vm : Vm} (hready : Ready hc c) (hzero : vm.hart.registers 0 = 0)
    (hparams : ParamsOf param (mulDivEmitted op rd rs1 rs2)) :
    Computes hc op rd rs1 rs2 param c vm ↔
      Guarded (vm.hart.registers rs1) (vm.hart.registers rs2) op := by
  constructor
  · rintro ⟨r, hrun⟩
    by_contra hbad
    have hwp : Wp (runBlock hc (mulDivIndicator op) param c) (fun _ _ => False)
        (fun _ _ => True) vm := by
      apply runBlock_wp hready
      intro c' hready'
      exact execWp_mulDiv op hready' hparams (fun hguarded => absurd hguarded hbad)
        fun _ => trivial
    rw [wp_of_ok hrun] at hwp
    exact hwp
  · intro hguarded
    apply runBlock_of_runsTo hready
    intro c' hready'
    refine execWp_mulDiv op hready' hparams (fun _ r => ?_) fun hbad => hbad hguarded
    rw [mulDivRetired, retired_eq hzero]

/--
Every multiplication and division is translated, its translation is installed
where the cache ends, and the installed block computes the result of the
instruction set exactly on the operands its template is guarded for.
-/
theorem mulDiv_computes_iff (hc : HostCode) (op : MulDivOp) (rd rs1 rs2 : RegIndex) (pc : Word) :
    ∃ e, Vmm.translate (op.encode rd rs1 rs2) pc = some e ∧ e.indicator = mulDivIndicator op ∧
      (∀ h h' : Hart, (∀ item ∈ h.pcMappings, item.guestPc ≠ pc) → Committed hc e pc h h' →
        Installed hc e pc h' h.translationCachePtr) ∧
      ∀ (vm : Vm) (offset : Nat) (c : Cpu), Installed hc e pc vm.hart offset → Ready hc c →
        vm.hart.registers 0 = 0 →
        (Computes hc op rd rs1 rs2 (cacheParams hc vm.hart offset e.indicator) c vm ↔
          Guarded (vm.hart.registers rs1) (vm.hart.registers rs2) op) := by
  have htranslate := translate_mulDiv op rd rs1 rs2 pc
  refine ⟨mulDivEmitted op rd rs1 rs2, htranslate, rfl, ?_, ?_⟩
  · intro h h' hfresh hcommit
    exact installed_of_committed (wellFormed_translate htranslate) hcommit hfresh
  · intro vm offset c hinstalled hready hzero
    exact computes_iff hready hzero hinstalled.paramsOf

/-- The machine at power-on, with `5` in `x1`. -/
def fiveVm : Vm :=
  { virtualMachineInit (fun _ => 0) fun _ => 0 with
    hart := { initialHart with registers := fun r => if r = 1 then 5 else 0 } }

theorem exists_installed_fiveVm (op : MulDivOp) (rd rs1 rs2 : RegIndex)
    (hok : isOk (commitTranslation evenHostCode 0x4000 (mulDivIndicator op)
      (mulDivEmitted op rd rs1 rs2).params fiveVm) = true) :
    ∃ h', Installed evenHostCode (mulDivEmitted op rd rs1 rs2) 0x4000 h' 0 ∧
      h'.registers = fiveVm.hart.registers := by
  obtain ⟨h', hinstalled, hregs, -⟩ :=
    exists_installed (wellFormed_translate (translate_mulDiv op rd rs1 rs2 0x4000)) rfl hok
  exact ⟨h', hinstalled, hregs⟩

/-- `divu x2, x1, x1`. -/
theorem mulDiv_computes_iff_divu :
    ∃ vm offset, vm.hart.registers 1 = 5 ∧
      Computes evenHostCode .divu 2 1 1 (cacheParams evenHostCode vm.hart offset .divu)
        (entryCpu evenHostCode) vm := by
  obtain ⟨h', hinstalled, hregs⟩ := exists_installed_fiveVm .divu 2 1 1 (by decide +kernel)
  obtain ⟨e, htranslate, -, -, hcomputes⟩ := mulDiv_computes_iff evenHostCode .divu 2 1 1 0x4000
  obtain rfl : mulDivEmitted .divu 2 1 1 = e :=
    Option.some.inj ((translate_mulDiv _ _ _ _ _).symm.trans htranslate)
  have hzero : h'.registers 0 = 0 := by
    rw [hregs]
    rfl
  have hfive : h'.registers 1 = 5 := by
    rw [hregs]
    rfl
  exact ⟨{ fiveVm with hart := h' }, 0, hfive,
    (hcomputes _ _ _ hinstalled (ready_entryCpu _) hzero).mpr trivial⟩

/-- `remu x2, x1, x0` does not give the dividend: the host divides by zero. -/
theorem remainder_by_zero_faults :
    ¬∀ (hc : HostCode) (op : MulDivOp) (rd rs1 rs2 : RegIndex) (pc : Word) (vm : Vm) (offset : Nat)
      (c : Cpu), Installed hc (mulDivEmitted op rd rs1 rs2) pc vm.hart offset → Ready hc c →
      vm.hart.registers 0 = 0 →
      Computes hc op rd rs1 rs2 (cacheParams hc vm.hart offset (mulDivIndicator op)) c vm := by
  intro hclaim
  obtain ⟨h', hinstalled, hregs⟩ := exists_installed_fiveVm .remu 2 1 0 (by decide +kernel)
  have hzero : h'.registers 0 = 0 := by
    rw [hregs]
    rfl
  have hready := ready_entryCpu evenHostCode
  have hcomputes := hclaim evenHostCode .remu 2 1 0 0x4000 { fiveVm with hart := h' } 0
    (entryCpu evenHostCode) hinstalled hready hzero
  have hguarded := (computes_iff hready hzero hinstalled.paramsOf).mp hcomputes
  exact hguarded hzero

end Zelda.Proofs.MulDiv
