import Mathlib.Tactic.IntervalCases
import Zelda.Lib.X86
/-!
# Rules for host code

The memory around a block changes only through its stores and its callees, so
whatever these preserve a whole block preserves.  Where a block is left can be
read off its text.
-/

namespace Zelda.Lib.X86

open Zelda.Lib.Effect

/-! ## Registers -/

@[simp] theorem get_noFlags (c : Cpu) (r : Reg) : c.noFlags.get r = c.get r := by
  cases r <;> rfl

@[simp] theorem get_set_self (c : Cpu) (r : Reg) (v : BitVec 64) : (c.set r v).get r = v := by
  cases r <;> rfl

theorem get_set_of_ne (c : Cpu) {r r' : Reg} (h : r' ≠ r) (v : BitVec 64) :
    (c.set r v).get r' = c.get r' := by
  cases r <;> cases r' <;> first | rfl | exact absurd rfl h

theorem get_set32_of_ne (c : Cpu) {r r' : Reg} (h : r' ≠ r) (v : BitVec 32) :
    (c.set32 r v).get r' = c.get r' :=
  get_set_of_ne c h _

@[simp] theorem get32_noFlags (c : Cpu) (r : Reg) : c.noFlags.get32 r = c.get32 r := by
  rw [Cpu.get32, Cpu.get32, get_noFlags]

theorem get32_set32_of_ne (c : Cpu) {r r' : Reg} (h : r' ≠ r) (v : BitVec 32) :
    (c.set32 r v).get32 r' = c.get32 r' := by
  rw [Cpu.get32, Cpu.get32, get_set32_of_ne c h]

theorem get32_of_get {c : Cpu} {r : Reg} {v : BitVec 32} (h : c.get r = v.setWidth 64) :
    c.get32 r = v := by
  rw [Cpu.get32, h, BitVec.setWidth_setWidth_of_le _ (by decide), BitVec.setWidth_eq]

@[simp] theorem get32_set32_self (c : Cpu) (r : Reg) (v : BitVec 32) : (c.set32 r v).get32 r = v :=
  get32_of_get (get_set_self c r _)

variable {φ ε σ : Type} {env : Env φ ε σ} {param : Nat → BitVec 32}

/-! ## Preservation -/

/-- `I` survives every store, and every callee in `calls` ends in `I` or abnormally in `E`. -/
structure Env.Respects (env : Env φ ε σ) (calls : φ → Prop) (I : σ → Prop) (E : ε → σ → Prop) :
    Prop where
  store : ∀ addr v s t, I s → env.store32 addr v s = some t → I t
  call : ∀ f c s, calls f → I s → Wp (env.call f c) (fun _ t => I t) E s
  fault : ∀ s, I s → E env.fault s

variable {calls : φ → Prop} {I : σ → Prop} {E : ε → σ → Prop}

theorem step_wp (henv : env.Respects calls I E) {i : Insn φ} (hi : ∀ f, i = .call f → calls f)
    (c : Cpu) {s : σ} (hs : I s) : Wp (step env param i c) (fun _ t => I t) E s := by
  cases i with
  | movlLoad addr dst =>
      simp only [step, wp_bind, wp_get]
      cases env.load32 (c.get addr) s with
      | some v => exact hs
      | none => exact henv.fault s hs
  | movlStore src addr =>
      simp only [step, wp_bind, wp_get]
      cases hstore : env.store32 (c.get addr) (src.value param c) s with
      | some t => exact henv.store _ _ s t hs hstore
      | none => exact henv.fault s hs
  | addlStore v addr =>
      simp only [step, wp_bind, wp_get]
      cases env.load32 (c.get addr) s with
      | none => exact henv.fault s hs
      | some old =>
          simp only
          cases hstore : env.store32 (c.get addr) (old + v) s with
          | some t => exact henv.store _ _ s t hs hstore
          | none => exact henv.fault s hs
  | setcc cond dst =>
      simp only [step]
      cases c.flags with
      | some f => exact hs
      | none => exact henv.fault s hs
  | jcc cond n =>
      simp only [step]
      cases c.flags with
      | some f => exact hs
      | none => exact henv.fault s hs
  | popq dst =>
      simp only [step]
      cases c.stack with
      | cons v rest => exact hs
      | nil => exact henv.fault s hs
  | idivl src =>
      simp only [step]
      split
      · exact henv.fault s hs
      · exact hs
  | divl src =>
      simp only [step]
      split
      · exact henv.fault s hs
      · exact hs
  | call f =>
      simp only [step, wp_bind]
      exact wp_mono (henv.call f c s (hi f rfl) hs) (fun _ _ h => h) fun _ _ h => h
  | movl | movq | movqImm | addq | alu | shiftImm | shiftCl | shrq | cmpl | extend | movsxd | btr
  | imull | mull | imulq | jmp | pushq | jmpEnd | jmpMonitor => exact hs

/-- A block preserves what its stores and its callees preserve. -/
theorem exec_wp (henv : env.Respects calls I E) {code : List (Insn φ)}
    (hcode : ∀ f, .call f ∈ code → calls f) (skip : Nat) (c : Cpu) {s : σ} (hs : I s) :
    Wp (exec env param skip code c) (fun _ t => I t) E s := by
  induction code generalizing skip c s with
  | nil => exact hs
  | cons i rest ih =>
      have hrest : ∀ f, .call f ∈ rest → calls f := fun f hf =>
        hcode f (List.mem_cons_of_mem i hf)
      cases skip with
      | succ skip => exact ih hrest skip c hs
      | zero =>
          simp only [exec, wp_bind]
          have hi : ∀ f, i = .call f → calls f := by
            rintro f rfl
            exact hcode f List.mem_cons_self
          refine wp_mono (step_wp henv hi c hs) ?_ fun _ _ h => h
          rintro (c | ⟨n, c⟩ | ⟨e, c⟩) t ht
          · exact ih hrest 0 c ht
          · exact ih hrest n c ht
          · exact ht

/-! ## Symbolic execution

One rule per instruction for the weakest precondition of the rest of a block.
-/

section Symbolic

variable {Q : End × Cpu → σ → Prop} {rest : List (Insn φ)} {c : Cpu} {s : σ}

/-- The weakest precondition of a block entered at its first instruction. -/
abbrev ExecWp (env : Env φ ε σ) (param : Nat → BitVec 32) (code : List (Insn φ)) (c : Cpu)
    (Q : End × Cpu → σ → Prop) (E : ε → σ → Prop) (s : σ) : Prop :=
  Wp (exec env param 0 code c) Q E s

theorem execWp_next {i : Insn φ} {c' : Cpu} {t : σ}
    (h : step env param i c s = .ok (.next c') t) :
    ExecWp env param (i :: rest) c Q E s ↔ ExecWp env param rest c' Q E t := by
  rw [ExecWp, exec, wp_bind, wp_of_ok h]

@[simp] theorem execWp_movl (src : Operand) (dst : Reg) :
    ExecWp env param (.movl src dst :: rest) c Q E s ↔
      ExecWp env param rest (c.set32 dst (src.value param c)) Q E s := Iff.rfl

@[simp] theorem execWp_movq (src dst : Reg) :
    ExecWp env param (.movq src dst :: rest) c Q E s ↔
      ExecWp env param rest (c.set dst (c.get src)) Q E s := Iff.rfl

@[simp] theorem execWp_movqImm (v : BitVec 64) (dst : Reg) :
    ExecWp env param (.movqImm v dst :: rest) c Q E s ↔
      ExecWp env param rest (c.set dst v) Q E s := Iff.rfl

@[simp] theorem execWp_addq (src dst : Reg) :
    ExecWp env param (.addq src dst :: rest) c Q E s ↔
      ExecWp env param rest (c.set dst (c.get dst + c.get src)).noFlags Q E s := Iff.rfl

@[simp] theorem execWp_alu (op : Alu) (src : Operand) (dst : Reg) :
    ExecWp env param (.alu op src dst :: rest) c Q E s ↔
      ExecWp env param rest
        (c.set32 dst (op.apply (src.value param c) (c.get32 dst))).noFlags Q E s := Iff.rfl

@[simp] theorem execWp_shiftImm (op : Shift) (n : Nat) (dst : Reg) :
    ExecWp env param (.shiftImm op n dst :: rest) c Q E s ↔
      ExecWp env param rest (c.set32 dst (op.apply n (c.get32 dst))).noFlags Q E s := Iff.rfl

@[simp] theorem execWp_shiftCl (op : Shift) (dst : Reg) :
    ExecWp env param (.shiftCl op dst :: rest) c Q E s ↔
      ExecWp env param rest
        (c.set32 dst (op.apply ((c.rcx.setWidth 5).toNat) (c.get32 dst))).noFlags Q E s := Iff.rfl

@[simp] theorem execWp_cmpl (src : Operand) (dst : Reg) :
    ExecWp env param (.cmpl src dst :: rest) c Q E s ↔
      ExecWp env param rest
        { c with flags := some (Flags.ofSub (c.get32 dst) (src.value param c)) } Q E s := Iff.rfl

@[simp] theorem execWp_extend (kind : Extend) (dst : Reg) :
    ExecWp env param (.extend kind dst :: rest) c Q E s ↔
      ExecWp env param rest (c.set32 dst (kind.apply (c.get dst))) Q E s := Iff.rfl

@[simp] theorem execWp_btr (bit : Nat) (dst : Reg) :
    ExecWp env param (.btr bit dst :: rest) c Q E s ↔
      ExecWp env param rest (c.set32 dst (c.get32 dst &&& ~~~(1#32 <<< bit))).noFlags Q E s :=
  Iff.rfl

@[simp] theorem execWp_shrq (n : Nat) (dst : Reg) :
    ExecWp env param (.shrq n dst :: rest) c Q E s ↔
      ExecWp env param rest (c.set dst (c.get dst >>> n)).noFlags Q E s := Iff.rfl

@[simp] theorem execWp_movsxd (src dst : Reg) :
    ExecWp env param (.movsxd src dst :: rest) c Q E s ↔
      ExecWp env param rest (c.set dst ((c.get32 src).signExtend 64)) Q E s := Iff.rfl

@[simp] theorem execWp_imull (src : Reg) :
    ExecWp env param (.imull src :: rest) c Q E s ↔
      ExecWp env param rest (c.setEdxEax
        ((c.get32 .rax).signExtend 64 * (c.get32 src).signExtend 64)).noFlags Q E s := Iff.rfl

@[simp] theorem execWp_mull (src : Reg) :
    ExecWp env param (.mull src :: rest) c Q E s ↔
      ExecWp env param rest (c.setEdxEax
        ((c.get32 .rax).setWidth 64 * (c.get32 src).setWidth 64)).noFlags Q E s := Iff.rfl

@[simp] theorem execWp_imulq (src : Reg) :
    ExecWp env param (.imulq src :: rest) c Q E s ↔
      ExecWp env param rest
        ((c.set .rax ((c.rax.signExtend 128 * (c.get src).signExtend 128).setWidth 64)).set .rdx
          (((c.rax.signExtend 128 * (c.get src).signExtend 128) >>> 64).setWidth 64)).noFlags
        Q E s := Iff.rfl

@[simp] theorem execWp_pushq (src : Reg) :
    ExecWp env param (.pushq src :: rest) c Q E s ↔
      ExecWp env param rest { c with stack := c.get src :: c.stack } Q E s := Iff.rfl

@[simp] theorem execWp_jmpEnd :
    ExecWp env param (.jmpEnd :: rest) c Q E s ↔ Q (.fallThrough, c) s := Iff.rfl

@[simp] theorem execWp_jmpMonitor :
    ExecWp env param (.jmpMonitor :: rest) c Q E s ↔ Q (.toMonitor, c) s := Iff.rfl

theorem execWp_setcc {f : Flags} (h : c.flags = some f) (cond : Cond) (dst : Reg) :
    ExecWp env param (.setcc cond dst :: rest) c Q E s ↔
      ExecWp env param rest
        (c.set dst ((c.get dst &&& ~~~0xff#64) ||| if cond.holds f then 1 else 0)) Q E s := by
  apply execWp_next
  simp only [step, h]
  rfl

theorem execWp_popq {v : BitVec 64} {stack : List (BitVec 64)} (h : c.stack = v :: stack)
    (dst : Reg) :
    ExecWp env param (.popq dst :: rest) c Q E s ↔
      ExecWp env param rest ({ c with stack := stack }.set dst v) Q E s := by
  apply execWp_next
  simp only [step, h]
  rfl

/-- Jumping over instructions is running the code behind them. -/
theorem exec_skip (n : Nat) (code : List (Insn φ)) :
    exec env param n code c = exec env param 0 (code.drop n) c := by
  induction code generalizing n with
  | nil => cases n <;> rfl
  | cons i rest ih =>
      cases n with
      | zero => rfl
      | succ n => exact ih n

theorem execWp_jcc {f : Flags} (h : c.flags = some f) (cond : Cond) (n : Nat) :
    ExecWp env param (.jcc cond n :: rest) c Q E s ↔
      if cond.holds f then ExecWp env param (rest.drop n) c Q E s
      else ExecWp env param rest c Q E s := by
  rw [ExecWp, exec, wp_bind]
  simp only [step, h, wp_pure]
  by_cases hcond : cond.holds f = true
  · simp only [hcond, if_true]
    rw [exec_skip]
  · simp only [hcond, if_false, Bool.false_eq_true]

theorem execWp_jmp (n : Nat) :
    ExecWp env param (.jmp n :: rest) c Q E s ↔ ExecWp env param (rest.drop n) c Q E s := by
  rw [ExecWp, exec, wp_bind]
  simp only [step, wp_pure]
  rw [exec_skip]

theorem execWp_movlLoad {addr dst : Reg} {v : BitVec 32}
    (h : env.load32 (c.get addr) s = some v) :
    ExecWp env param (.movlLoad addr dst :: rest) c Q E s ↔
      ExecWp env param rest (c.set32 dst v) Q E s := by
  apply execWp_next
  simp only [step, bind_apply, get_apply, h]
  rfl

theorem execWp_movlStore {src : Operand} {addr : Reg} {t : σ}
    (h : env.store32 (c.get addr) (src.value param c) s = some t) :
    ExecWp env param (.movlStore src addr :: rest) c Q E s ↔
      ExecWp env param rest c Q E t := by
  apply execWp_next
  simp only [step, bind_apply, get_apply, h]
  rfl

theorem execWp_addlStore {v old : BitVec 32} {addr : Reg} {t : σ}
    (hload : env.load32 (c.get addr) s = some old)
    (hstore : env.store32 (c.get addr) (old + v) s = some t) :
    ExecWp env param (.addlStore v addr :: rest) c Q E s ↔
      ExecWp env param rest c.noFlags Q E t := by
  apply execWp_next
  simp only [step, bind_apply, get_apply, hload, hstore]
  rfl

/-- Signed division faults on a zero divisor and on a quotient that does not fit. -/
theorem execWp_idivl (src : Reg) :
    ExecWp env param (.idivl src :: rest) c Q E s ↔
      if (c.get32 src).toInt = 0 ∨ c.edxEax.toInt.tdiv (c.get32 src).toInt < -2 ^ 31 ∨
          2 ^ 31 ≤ c.edxEax.toInt.tdiv (c.get32 src).toInt then
        E env.fault s
      else
        ExecWp env param rest
          ((c.set32 .rax (BitVec.ofInt 32 (c.edxEax.toInt.tdiv (c.get32 src).toInt))).set32 .rdx
            (BitVec.ofInt 32 (c.edxEax.toInt.tmod (c.get32 src).toInt))).noFlags Q E s := by
  rw [ExecWp, exec, wp_bind]
  simp only [step]
  split <;> rfl

/-- Unsigned division faults likewise. -/
theorem execWp_divl (src : Reg) :
    ExecWp env param (.divl src :: rest) c Q E s ↔
      if (c.get32 src).toNat = 0 ∨ 2 ^ 32 ≤ c.edxEax.toNat / (c.get32 src).toNat then
        E env.fault s
      else
        ExecWp env param rest
          ((c.set32 .rax (BitVec.ofNat 32 (c.edxEax.toNat / (c.get32 src).toNat))).set32 .rdx
            (BitVec.ofNat 32 (c.edxEax.toNat % (c.get32 src).toNat))).noFlags Q E s := by
  rw [ExecWp, exec, wp_bind]
  simp only [step]
  split <;> rfl

theorem execWp_call (f : φ) :
    ExecWp env param (.call f :: rest) c Q E s ↔
      Wp (env.call f c)
        (fun result t => ExecWp env param rest (c.afterCall (env.clobber f c) result) Q E t)
        E s := by
  rw [ExecWp, exec, wp_bind]
  simp only [step, wp_bind, wp_pure]

end Symbolic

/-! ## Comparisons

The conditions after `cmpl` are the comparisons they are named after.
-/

theorem holds_e (a b : BitVec 32) : Cond.e.holds (Flags.ofSub a b) = (a == b) := by
  simp only [Cond.holds, Flags.ofSub]
  rw [Bool.eq_iff_iff, beq_iff_eq, beq_iff_eq]
  exact BitVec.sub_eq_iff_eq_add.trans (by simp)

theorem holds_l (a b : BitVec 32) : Cond.l.holds (Flags.ofSub a b) = a.slt b := by
  simp only [Cond.holds, Flags.ofSub, BitVec.msb_eq_toInt, BitVec.slt]
  have hdiff : (a - b).toInt = (a.toInt - b.toInt).bmod (2 ^ 32) := BitVec.toInt_sub
  have ha := BitVec.le_toInt a
  have ha' := @BitVec.toInt_lt _ a
  have hb := BitVec.le_toInt b
  have hb' := @BitVec.toInt_lt _ b
  have hwrap : (a - b).toInt = a.toInt - b.toInt ∨
      (a - b).toInt = a.toInt - b.toInt - 2 ^ 32 ∧ 2 ^ 31 ≤ a.toInt - b.toInt ∨
      (a - b).toInt = a.toInt - b.toInt + 2 ^ 32 ∧ a.toInt - b.toInt < -2 ^ 31 := by
    rw [hdiff, Int.bmod_def]
    split <;> omega
  have hneg : (a.toInt < b.toInt) ↔
      ¬((a - b).toInt < 0 ↔ (a - b).toInt ≠ a.toInt - b.toInt) := by
    omega
  rw [Bool.eq_iff_iff, decide_eq_true_iff, hneg, bne_iff_ne, ne_eq, Bool.eq_iff_iff,
    decide_eq_true_iff, decide_eq_true_iff]

theorem movzbl_setcc (x : BitVec 64) (b : Bool) :
    Extend.movzbl.apply ((x &&& ~~~0xff#64) ||| if b then 1 else 0) = if b then 1 else 0 := by
  have hlow : (x &&& ~~~0xff#64).setWidth 8 = 0 := by
    apply BitVec.eq_of_getLsbD_eq
    intro i hi
    have hbit : (~~~0xff#64).getLsbD i = false := by
      interval_cases i <;> rfl
    rw [BitVec.getLsbD_setWidth, BitVec.getLsbD_and, hbit]
    simp
  simp only [Extend.apply, BitVec.setWidth_or, hlow]
  cases b <;> rfl

/-! ## Where a block is left -/

/-- No path through the code reaches its end or jumps there. -/
def endsInMonitor : List (Insn φ) → Bool
  | [] => false
  | .jmpEnd :: _ => false
  | .jmpMonitor :: rest => rest.isEmpty || endsInMonitor rest
  | .jcc _ n :: rest => decide (n < rest.length) && endsInMonitor rest
  | .jmp n :: rest => decide (n < rest.length) && endsInMonitor rest
  | _ :: rest => endsInMonitor rest

/-- Skipping the first instruction keeps the property, unless nothing is left. -/
theorem endsInMonitor_tail {i : Insn φ} {rest : List (Insn φ)}
    (h : endsInMonitor (i :: rest) = true) : rest = [] ∨ endsInMonitor rest = true := by
  cases i <;> simp_all [endsInMonitor]

theorem step_toMonitor {i : Insn φ} {rest : List (Insn φ)}
    (h : endsInMonitor (i :: rest) = true) (c : Cpu) (s : σ) :
    Wp (step env param i c)
      (fun r _ => match r with
        | .next _ => endsInMonitor rest = true
        | .skip n _ => n < rest.length ∧ endsInMonitor rest = true
        | .done e _ => e = .toMonitor)
      (fun _ _ => True) s := by
  cases i with
  | jmpEnd => simp [endsInMonitor] at h
  | jmpMonitor => exact rfl
  | jmp n => simpa [endsInMonitor, step] using h
  | jcc cond n =>
      simp only [endsInMonitor, Bool.and_eq_true, decide_eq_true_eq] at h
      simp only [step]
      cases c.flags with
      | none => trivial
      | some f =>
          by_cases hcond : cond.holds f = true
          · simp only [hcond, if_true, wp_pure]
            exact h
          · simp only [hcond, if_false, Bool.false_eq_true, wp_pure]
            exact h.2
  | movlLoad addr dst =>
      simp only [step, wp_bind, wp_get]
      cases env.load32 (c.get addr) s with
      | some v => exact h
      | none => trivial
  | movlStore src addr =>
      simp only [step, wp_bind, wp_get]
      cases env.store32 (c.get addr) (src.value param c) s with
      | some t => exact h
      | none => trivial
  | addlStore v addr =>
      simp only [step, wp_bind, wp_get]
      cases env.load32 (c.get addr) s with
      | none => trivial
      | some old =>
          simp only
          cases env.store32 (c.get addr) (old + v) s with
          | some t => exact h
          | none => trivial
  | setcc cond dst =>
      simp only [step]
      cases c.flags with
      | some f => exact h
      | none => trivial
  | popq dst =>
      simp only [step]
      cases c.stack with
      | cons v rest => exact h
      | nil => trivial
  | idivl src =>
      simp only [step]
      split
      · trivial
      · exact h
  | divl src =>
      simp only [step]
      split
      · trivial
      · exact h
  | call f =>
      simp only [step, wp_bind]
      unfold Wp
      cases env.call f c s with
      | ok result t => exact h
      | error e t => trivial
  | movl | movq | movqImm | addq | alu | shiftImm | shiftCl | shrq | cmpl | extend | movsxd | btr
  | imull | mull | imulq | pushq => exact h

/-- Such a block is left for the monitor whenever it ends normally. -/
theorem exec_toMonitor {code : List (Insn φ)} (h : endsInMonitor code = true) {skip : Nat}
    (hskip : skip < code.length) (c : Cpu) (s : σ) :
    Wp (exec env param skip code c) (fun r _ => r.1 = .toMonitor) (fun _ _ => True) s := by
  induction code generalizing skip c s with
  | nil => cases hskip
  | cons i rest ih =>
      cases skip with
      | succ skip =>
          have hlt : skip < rest.length := Nat.lt_of_succ_lt_succ hskip
          rcases endsInMonitor_tail h with rfl | hrest
          · cases hlt
          · exact ih hrest hlt c s
      | zero =>
          simp only [exec, wp_bind]
          refine wp_mono (step_toMonitor h c s) ?_ fun _ _ h => h
          rintro (c | ⟨n, c⟩ | ⟨e, c⟩) t ht
          · exact ih ht (List.length_pos_of_ne_nil (by rintro rfl; cases ht)) c t
          · exact ih ht.2 ht.1 c t
          · exact ht

/-- No instruction of the code leads to the monitor. -/
def neverMonitor : List (Insn φ) → Bool
  | [] => true
  | .jmpMonitor :: _ => false
  | _ :: rest => neverMonitor rest

theorem neverMonitor_tail {i : Insn φ} {rest : List (Insn φ)}
    (h : neverMonitor (i :: rest) = true) : neverMonitor rest = true := by
  cases i <;> simp_all [neverMonitor]

theorem step_fallThrough {i : Insn φ} {rest : List (Insn φ)}
    (h : neverMonitor (i :: rest) = true) (c : Cpu) (s : σ) :
    Wp (step env param i c)
      (fun r _ => ∀ e c', r = .done e c' → e = .fallThrough) (fun _ _ => True) s := by
  cases i with
  | jmpMonitor => cases h
  | jmpEnd =>
      rintro e c' ⟨⟩
      rfl
  | movlLoad addr dst =>
      simp only [step, wp_bind, wp_get]
      cases env.load32 (c.get addr) s with
      | some v => exact fun e c' hr => by cases hr
      | none => trivial
  | movlStore src addr =>
      simp only [step, wp_bind, wp_get]
      cases env.store32 (c.get addr) (src.value param c) s with
      | some t => exact fun e c' hr => by cases hr
      | none => trivial
  | addlStore v addr =>
      simp only [step, wp_bind, wp_get]
      cases env.load32 (c.get addr) s with
      | none => trivial
      | some old =>
          simp only
          cases env.store32 (c.get addr) (old + v) s with
          | some t => exact fun e c' hr => by cases hr
          | none => trivial
  | setcc cond dst =>
      simp only [step]
      cases c.flags with
      | some f => exact fun e c' hr => by cases hr
      | none => trivial
  | jcc cond n =>
      simp only [step]
      cases c.flags with
      | none => trivial
      | some f =>
          intro e c' hr
          split at hr <;> cases hr
  | popq dst =>
      simp only [step]
      cases c.stack with
      | cons v rest => exact fun e c' hr => by cases hr
      | nil => trivial
  | idivl src | divl src =>
      simp only [step]
      split
      · trivial
      · exact fun e c' hr => by cases hr
  | call f =>
      simp only [step, wp_bind]
      unfold Wp
      cases env.call f c s with
      | ok result t => exact fun e c' hr => by cases hr
      | error e t => trivial
  | movl | movq | movqImm | addq | alu | shiftImm | shiftCl | shrq | cmpl | extend | movsxd | btr
  | imull | mull | imulq | pushq | jmp => exact fun e c' hr => by cases hr

/-- Such a block falls through whenever it ends normally. -/
theorem exec_fallThrough {code : List (Insn φ)} (h : neverMonitor code = true) (skip : Nat)
    (c : Cpu) (s : σ) :
    Wp (exec env param skip code c) (fun r _ => r.1 = .fallThrough) (fun _ _ => True) s := by
  induction code generalizing skip c s with
  | nil =>
      cases skip <;> rfl
  | cons i rest ih =>
      have hrest := neverMonitor_tail h
      cases skip with
      | succ skip => exact ih hrest skip c s
      | zero =>
          simp only [exec, wp_bind]
          refine wp_mono (step_fallThrough h c s) ?_ fun _ _ h => h
          rintro (c | ⟨n, c⟩ | ⟨e, c⟩) t ht
          · exact ih hrest 0 c t
          · exact ih hrest n c t
          · exact ht e c rfl

end Zelda.Lib.X86
