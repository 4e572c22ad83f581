import Zelda.Lib.X86Rules
/-!
# Typestates of host code

A typestate says what is known of the memory around a block at a point of its
text.  Stores and calls move it; a block follows a discipline if it moves only
as it may, gives back the registers it has to keep, and ends where it should.
Following is decidable, and sound for any reading of the typestates.
-/

namespace Zelda.Lib.X86

open Zelda.Lib.Effect

variable {φ ε σ δ : Type}

structure Discipline (φ δ : Type) where
  /-- A register that the block keeps, but for the stack discipline around calls. -/
  kept : Reg → Bool
  /-- The typestate after `movl src, (addr)`. -/
  store : Operand → Reg → δ → δ
  /-- The typestate after `addl $value, (addr)`. -/
  add : Reg → δ → δ
  /-- The typestate after a call, where it may be made. -/
  call : φ → δ → Option δ
  final : δ → Bool

namespace Discipline

variable (D : Discipline φ δ)

/--
Whether code entered in `d`, with the registers of `saved` on the stack, keeps
to the discipline.  The first argument counts instructions jumped over.
-/
def follows : Nat → δ → List Reg → List (Insn φ) → Bool
  | _, d, _, [] => D.final d
  | skip + 1, d, saved, _ :: rest => follows skip d saved rest
  | 0, d, saved, i :: rest =>
      match i with
      | .movlStore src addr => follows 0 (D.store src addr d) saved rest
      | .addlStore _ addr => follows 0 (D.add addr d) saved rest
      | .call f =>
          match D.call f d with
          | some d => follows 0 d saved rest
          | none => false
      | .pushq r => D.kept r && follows 0 d (r :: saved) rest
      | .popq r =>
          match saved with
          | r' :: saved => r == r' && follows 0 d saved rest
          | [] => false
      | .jcc _ n => follows 0 d saved rest && follows n d saved rest
      | .jmp n => follows n d saved rest
      | .jmpEnd | .jmpMonitor => D.final d
      | .cmpl _ _ => follows 0 d saved rest
      | .imull _ | .mull _ | .imulq _ | .idivl _ | .divl _ =>
          !D.kept .rax && !D.kept .rdx && follows 0 d saved rest
      | .movl _ dst | .movlLoad _ dst | .movq _ dst | .movqImm _ dst | .addq _ dst | .alu _ _ dst
      | .shiftImm _ _ dst | .shiftCl _ dst | .shrq _ dst | .setcc _ dst | .extend _ dst
      | .movsxd _ dst | .btr _ dst => !D.kept dst && follows 0 d saved rest

/-- The registers a callee may change. -/
def callerSaved : List Reg :=
  [.rax, .rcx, .rdx, .rsi, .rdi, .r8]

/-- The kept registers hold `regs`, those on the stack in particular. -/
structure Keeps (regs : Reg → BitVec 64) (saved : List Reg) (c : Cpu) : Prop where
  get : ∀ r, D.kept r = true → c.get r = regs r
  savedKept : ∀ r ∈ saved, D.kept r = true
  stack : ∃ base, c.stack = saved.map regs ++ base

/-- `P` reads the typestates, with the kept registers at `regs` and the failures in `E`. -/
structure Sound (env : Env φ ε σ) (param : Nat → BitVec 32) (regs : Reg → BitVec 64)
    (P : δ → σ → Prop) (E : ε → σ → Prop) : Prop where
  callerSaved : ∀ r ∈ callerSaved, D.kept r = false
  store : ∀ src addr d (c : Cpu) s t, (∀ r, D.kept r = true → c.get r = regs r) → P d s →
    env.store32 (c.get addr) (src.value param c) s = some t → P (D.store src addr d) t
  add : ∀ (v : BitVec 32) addr d (c : Cpu) s t old, (∀ r, D.kept r = true → c.get r = regs r) →
    P d s → env.load32 (c.get addr) s = some old → env.store32 (c.get addr) (old + v) s = some t →
    P (D.add addr d) t
  call : ∀ f d d' c s, D.call f d = some d' → P d s →
    Wp (env.call f c) (fun _ t => P d' t) E s
  fault : ∀ d s, P d s → E env.fault s

section Keeps

variable {D : Discipline φ δ} {regs : Reg → BitVec 64} {saved : List Reg} {c c' : Cpu}

theorem Keeps.of_get (h : D.Keeps regs saved c) (hstack : c'.stack = c.stack)
    (hget : ∀ r, D.kept r = true → c'.get r = c.get r) : D.Keeps regs saved c' where
  get r hr := (hget r hr).trans (h.get r hr)
  savedKept := h.savedKept
  stack := by
    rw [hstack]
    exact h.stack

theorem stack_set (c : Cpu) (r : Reg) (v : BitVec 64) : (c.set r v).stack = c.stack := by
  cases r <;> rfl

theorem ne_of_kept {r r' : Reg} (hr : D.kept r = true) (hr' : D.kept r' = false) : r ≠ r' := by
  rintro rfl
  rw [hr] at hr'
  cases hr'

theorem Keeps.set (h : D.Keeps regs saved c) {dst : Reg} (hdst : D.kept dst = false)
    (v : BitVec 64) : D.Keeps regs saved (c.set dst v) :=
  h.of_get (stack_set c dst v) fun _ hr => get_set_of_ne c (ne_of_kept hr hdst) v

theorem Keeps.noFlags (h : D.Keeps regs saved c) : D.Keeps regs saved c.noFlags :=
  h.of_get rfl fun r _ => get_noFlags c r

theorem Keeps.flags (h : D.Keeps regs saved c) (flags : Option Flags) :
    D.Keeps regs saved { c with flags := flags } :=
  h.of_get rfl fun r _ => by cases r <;> rfl

theorem Keeps.push (h : D.Keeps regs saved c) {r : Reg} (hr : D.kept r = true) :
    D.Keeps regs (r :: saved) { c with stack := c.get r :: c.stack } where
  get r' hr' := by
    have hget : ({ c with stack := c.get r :: c.stack } : Cpu).get r' = c.get r' := by
      cases r' <;> rfl
    rw [hget, h.get r' hr']
  savedKept := by
    intro r' hr'
    rcases List.mem_cons.mp hr' with rfl | hmem
    · exact hr
    · exact h.savedKept r' hmem
  stack := by
    obtain ⟨base, hbase⟩ := h.stack
    refine ⟨base, ?_⟩
    show c.get r :: c.stack = regs r :: (saved.map regs ++ base)
    rw [hbase, h.get r hr]

/-- What is popped is what the register holds anyway. -/
theorem Keeps.pop {r : Reg} (h : D.Keeps regs (r :: saved) c) :
    ∃ stack, c.stack = regs r :: stack ∧
      D.Keeps regs saved ({ c with stack := stack }.set r (regs r)) := by
  obtain ⟨base, hbase⟩ := h.stack
  refine ⟨saved.map regs ++ base, hbase, ?_, ?_, base, stack_set _ r _⟩
  · intro r' hr'
    by_cases heq : r' = r
    · rw [heq, get_set_self]
    · have hget : ({ c with stack := saved.map regs ++ base } : Cpu).get r' = c.get r' := by
        cases r' <;> rfl
      rw [get_set_of_ne _ heq, hget, h.get r' hr']
  · intro r' hr'
    exact h.savedKept r' (List.mem_cons_of_mem r hr')

theorem Keeps.afterCall (h : D.Keeps regs saved c) (hcaller : ∀ r ∈ callerSaved, D.kept r = false)
    (clobber : Reg → BitVec 64) (result : BitVec 64) :
    D.Keeps regs saved (c.afterCall clobber result) := by
  have hstack : (c.afterCall clobber result).stack = c.stack := rfl
  apply h.of_get hstack
  intro r hr
  have hnot : r ∉ callerSaved := by
    intro hmem
    rw [hcaller r hmem] at hr
    cases hr
  cases r with
  | rax | rcx | rdx | rsi | rdi | r8 => exact absurd (by decide) hnot
  | rbx | r12 | r13 | r14 | r15 => rfl

end Keeps

section Follows

variable {D : Discipline φ δ} {env : Env φ ε σ} {param : Nat → BitVec 32}
variable {regs : Reg → BitVec 64} {P : δ → σ → Prop} {E : ε → σ → Prop}

/-- How a block that follows the discipline is left. -/
def Ended (D : Discipline φ δ) (regs : Reg → BitVec 64) (P : δ → σ → Prop) (r : End × Cpu) (t : σ) :
    Prop :=
  (∀ r', D.kept r' = true → r.2.get r' = regs r') ∧ ∃ d, D.final d = true ∧ P d t

theorem ended {c : Cpu} {saved : List Reg} {d : δ} {s : σ} (hc : D.Keeps regs saved c)
    (hfinal : D.final d = true) (hs : P d s) (e : End) : Ended D regs P (e, c) s :=
  ⟨hc.get, d, hfinal, hs⟩

/-- A block that follows the discipline ends in a final typestate, or fails where it may. -/
theorem exec_follows (hD : D.Sound env param regs P E) {code : List (Insn φ)} {skip : Nat} {d : δ}
    {saved : List Reg} (hcode : D.follows skip d saved code = true) {c : Cpu}
    (hc : D.Keeps regs saved c) {s : σ} (hs : P d s) :
    Wp (exec env param skip code c) (Ended D regs P) E s := by
  induction code generalizing skip d saved c s with
  | nil => exact ended hc (by cases skip <;> exact hcode) hs .fallThrough
  | cons i rest ih =>
      cases skip with
      | succ skip => exact ih hcode hc hs
      | zero =>
          -- a register write outside the kept registers
          have hset : ∀ {dst : Reg}, (!D.kept dst && D.follows 0 d saved rest) = true →
              D.kept dst = false ∧ D.follows 0 d saved rest = true := by
            intro dst h
            rw [Bool.and_eq_true, Bool.not_eq_true'] at h
            exact h
          have hwide : (!D.kept .rax && !D.kept .rdx && D.follows 0 d saved rest) = true →
              D.kept .rax = false ∧ D.kept .rdx = false ∧ D.follows 0 d saved rest = true := by
            intro h
            rw [Bool.and_eq_true, Bool.and_eq_true, Bool.not_eq_true', Bool.not_eq_true'] at h
            exact ⟨h.1.1, h.1.2, h.2⟩
          have hfault : E env.fault s := hD.fault d s hs
          show ExecWp env param (i :: rest) c (Ended D regs P) E s
          cases i with
          | movlStore src addr =>
              cases hstore : env.store32 (c.get addr) (src.value param c) s with
              | some t =>
                  rw [execWp_movlStore hstore]
                  exact ih hcode hc (hD.store src addr d c s t hc.get hs hstore)
              | none =>
                  simp only [ExecWp, exec, step, wp_bind, wp_get, hstore]
                  exact hfault
          | addlStore v addr =>
              cases hload : env.load32 (c.get addr) s with
              | some old =>
                  cases hstore : env.store32 (c.get addr) (old + v) s with
                  | some t =>
                      rw [execWp_addlStore hload hstore]
                      exact ih hcode hc.noFlags (hD.add v addr d c s t old hc.get hs hload hstore)
                  | none =>
                      simp only [ExecWp, exec, step, wp_bind, wp_get, hload, hstore]
                      exact hfault
              | none =>
                  simp only [ExecWp, exec, step, wp_bind, wp_get, hload]
                  exact hfault
          | call f =>
              simp only [follows] at hcode
              split at hcode
              · rename_i d' hd'
                rw [execWp_call]
                refine wp_mono (hD.call f d d' c s hd' hs) ?_ fun _ _ he => he
                intro result t ht
                exact ih hcode (hc.afterCall hD.callerSaved _ result) ht
              · cases hcode
          | pushq r =>
              obtain ⟨hr, hrest⟩ := Bool.and_eq_true_iff.mp hcode
              exact ih hrest (hc.push hr) hs
          | popq r =>
              simp only [follows] at hcode
              split at hcode
              · obtain ⟨hr, hrest⟩ := Bool.and_eq_true_iff.mp hcode
                obtain rfl := beq_iff_eq.mp hr
                obtain ⟨stack, hstack, hpop⟩ := hc.pop
                rw [execWp_popq hstack]
                exact ih hrest hpop hs
              · cases hcode
          | jcc cond n =>
              obtain ⟨hnext, hskip⟩ := Bool.and_eq_true_iff.mp hcode
              cases hflags : c.flags with
              | some f =>
                  rw [execWp_jcc hflags]
                  split
                  · have h := ih hskip hc hs
                    rw [exec_skip] at h
                    exact h
                  · exact ih hnext hc hs
              | none =>
                  simp only [ExecWp, exec, step, wp_bind, hflags]
                  exact hfault
          | jmp n => exact ih hcode hc hs
          | jmpEnd => exact ended hc hcode hs .fallThrough
          | jmpMonitor => exact ended hc hcode hs .toMonitor
          | cmpl src dst => exact ih hcode (hc.flags _) hs
          | imull src | mull src =>
              obtain ⟨hrax, hrdx, hrest⟩ := hwide hcode
              exact ih hrest ((hc.set hrax _).set hrdx _).noFlags hs
          | imulq src =>
              obtain ⟨hrax, hrdx, hrest⟩ := hwide hcode
              exact ih hrest ((hc.set hrax _).set hrdx _).noFlags hs
          | idivl src =>
              obtain ⟨hrax, hrdx, hrest⟩ := hwide hcode
              rw [execWp_idivl]
              split
              · exact hfault
              · exact ih hrest ((hc.set hrax _).set hrdx _).noFlags hs
          | divl src =>
              obtain ⟨hrax, hrdx, hrest⟩ := hwide hcode
              rw [execWp_divl]
              split
              · exact hfault
              · exact ih hrest ((hc.set hrax _).set hrdx _).noFlags hs
          | movlLoad addr dst =>
              obtain ⟨hdst, hrest⟩ := hset hcode
              cases hload : env.load32 (c.get addr) s with
              | some v =>
                  rw [execWp_movlLoad hload]
                  exact ih hrest (hc.set hdst _) hs
              | none =>
                  simp only [ExecWp, exec, step, wp_bind, wp_get, hload]
                  exact hfault
          | setcc cond dst =>
              obtain ⟨hdst, hrest⟩ := hset hcode
              cases hflags : c.flags with
              | some f =>
                  rw [execWp_setcc hflags]
                  exact ih hrest (hc.set hdst _) hs
              | none =>
                  simp only [ExecWp, exec, step, wp_bind, hflags]
                  exact hfault
          | movl _ dst | movq _ dst | movqImm _ dst | extend _ dst | movsxd _ dst =>
              obtain ⟨hdst, hrest⟩ := hset hcode
              exact ih hrest (hc.set hdst _) hs
          | addq _ dst | alu _ _ dst | shiftImm _ _ dst | shiftCl _ dst | shrq _ dst | btr _ dst =>
              obtain ⟨hdst, hrest⟩ := hset hcode
              exact ih hrest (hc.set hdst _).noFlags hs

end Follows

end Discipline

end Zelda.Lib.X86
