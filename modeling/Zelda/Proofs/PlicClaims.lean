import Zelda.Proofs.PlicRouting
/-!
# Exclusive claims

A claim marks its source and only a completion takes the mark away.  The
completion register does not look at the context it is written through, so a
source stays with the context that claimed it as long as nobody completes it
who could not have claimed it.
-/

namespace Zelda.Proofs.PlicClaims

open Zelda.Vmm
open Zelda.Lib.Effect
open Zelda.Proofs.PlicRouting

/-! ## Events of a run -/

/-- A read of some context's claim register returns `source`. -/
def Claims (vm : Vm) (op : Operation) (source : Nat) : Prop :=
  ∃ pmr addr size context value t, op = .read pmr addr size ∧
    IsClaimRegister vm pmr addr context ∧ pmr.pmrRead addr size vm = .ok value t ∧
    value.toNat = source

/-- A completion naming `source` is written through `context`. -/
def Completes (vm : Vm) (op : Operation) (context source : Nat) : Prop :=
  ∃ pmr addr size value, op = .write pmr addr size value ∧
    IsClaimRegister vm pmr addr context ∧ (value.setWidth 32 : Word).toNat = source

/-- A context's enable register includes a source. -/
def Enabled (p : Plic) (context source : Nat) : Prop :=
  (p.enable context).getLsbD source = true

/-- A source has been claimed and not completed. -/
def Claimed (p : Plic) (source : Nat) : Prop :=
  p.claimed.getLsbD source = true

/-- The machine before operation `n` of a run. -/
def before (vm : Vm) (ops : List Operation) (n : Nat) : Vm :=
  (ops.take n).foldl (fun vm op => finalState (op.run vm)) vm

theorem before_succ {vm : Vm} {ops : List Operation} {n : Nat} {op : Operation}
    (h : ops[n]? = some op) : before vm ops (n + 1) = finalState (op.run (before vm ops n)) := by
  unfold before
  rw [List.take_add_one, h, List.foldl_append]
  rfl

theorem consistent_before {vm : Vm} (h : Reached vm) (ops : List Operation) (n : Nat) :
    Consistent (before vm ops n).plic :=
  (h.foldl (ops.take n)).consistent

/-! ## The claim mark -/

theorem Claimed.pos {p : Plic} (hp : Consistent p) {source : Nat} (h : Claimed p source) :
    0 < source := by
  rcases Nat.eq_zero_or_pos source with rfl | hpos
  · rw [Claimed, hp.claimed_zero] at h
    cases h
  · exact hpos

theorem Claimed.lt {p : Plic} {source : Nat} (h : Claimed p source) : source < 32 :=
  BitVec.lt_of_getLsbD h

theorem claimed_or {p : Plic} {source : Nat} (h : Claimed p source) (marks : Word) :
    Claimed { p with claimed := p.claimed ||| marks } source := by
  show (p.claimed ||| marks).getLsbD source = true
  rw [BitVec.getLsbD_or, h, Bool.true_or]

/-- A completion takes away the mark of the source it names and no other. -/
theorem claimed_complete {p : Plic} {source : Nat} {value : Word} (h : Claimed p source)
    (hp : Consistent p) : Claimed (p.complete value) source ↔ value.toNat ≠ source := by
  have hlt := h.lt
  have hpos := h.pos hp
  unfold Plic.complete
  split
  · rename_i hrange
    refine ⟨fun _ hvalue => ?_, fun _ => h⟩
    rcases hrange with rfl | hge
    · exact hpos.ne hvalue
    · have hge' : 32 ≤ value.toNat := hge
      omega
  · show (p.claimed &&& ~~~Plic.sourceBit value.toNat).getLsbD source = true ↔ _
    rw [BitVec.getLsbD_and, BitVec.getLsbD_not, getLsbD_sourceBit, h]
    by_cases hs : value.toNat = source
    · simp [hlt, hs]
    · simp [hlt, hs, Ne.symm hs]

/-- Completing an unclaimed source does nothing. -/
theorem complete_of_not_claimed {p : Plic} {value : Word} (hp : Consistent p)
    (h : ¬Claimed p value.toNat) : p.complete value = p := by
  have hclaimed : (p.complete value).claimed = p.claimed := by
    unfold Plic.complete
    split
    · rfl
    apply BitVec.eq_of_getLsbD_eq
    intro i hi
    rw [BitVec.getLsbD_and, BitVec.getLsbD_not, getLsbD_sourceBit]
    by_cases hs : i = value.toNat
    · rw [hs, Bool.eq_false_iff.mpr h, Bool.false_and]
    · simp [hs, hi]
  have hpending := complete_pending hp value
  unfold Plic.complete at hclaimed hpending ⊢
  split at hclaimed
  · rename_i hrange
    rw [if_pos hrange]
  · rename_i hrange
    rw [if_neg hrange] at hpending ⊢
    simp only at hclaimed hpending ⊢
    rw [hclaimed, hpending]

theorem claimed_read {p : Plic} {source : Nat} (h : Claimed p source) (addr : Word) :
    Claimed (p.read addr).2 source := by
  unfold Plic.read
  simp only
  split
  · exact h
  split
  · exact h
  split
  · exact h
  split
  · split
    · split
      · exact h
      split
      · unfold Plic.claim
        simp only
        split
        · exact h
        · exact claimed_or h _
      · exact h
    · exact h
  · exact h

/-- A register write keeps a mark unless it completes the source. -/
theorem claimed_write {p : Plic} {source : Nat} {addr value : Word} (hp : Consistent p)
    (h : Claimed p source)
    (hother : ∀ context, context < p.nrContexts → (addr - p.base).toNat =
      PLIC_REG_CONTEXT_BASE + context * PLIC_REG_CONTEXT_STRIDE + PLIC_REG_CONTEXT_CLAIM →
      value.toNat ≠ source) : Claimed (p.write addr value) source := by
  unfold Plic.write
  simp only
  split
  · split
    · exact h
    · exact h
  split
  · exact h
  split
  · split
    · exact h
    · exact h
  split
  · rename_i hbase
    split
    · rename_i hcontext
      split
      · exact h
      split
      · rename_i hreg
        apply (claimed_complete h hp).mpr
        apply hother _ hcontext
        have hsplit := Nat.div_add_mod ((addr - p.base).toNat - PLIC_REG_CONTEXT_BASE)
          PLIC_REG_CONTEXT_STRIDE
        rw [hreg, Nat.mul_comm] at hsplit
        omega
      · exact h
    · exact h
  · exact h

/-! ## One operation -/

/-- The mark of a source survives every operation but its completion. -/
theorem claimed_operation {vm : Vm} {op : Operation} {source : Nat} (hvm : Consistent vm.plic)
    (h : Claimed vm.plic source) (hother : ∀ context, ¬Completes vm op context source) :
    Claimed (finalState (op.run vm)).plic source := by
  apply Leaves.finalState (P := fun p => Claimed p source)
  apply leaves_operation ?_ op h
  · intro pmr addr size _ _
    exact claimed_read h addr
  · intro pmr addr size value hop hops
    apply claimed_write hvm h
    intro context hcontext hoffset hvalue
    exact hother context ⟨pmr, addr, size, value, hop, ⟨hops, hcontext, hoffset⟩, hvalue⟩
  · intro p line asserted _ hp
    unfold Plic.setPending
    split
    · exact hp
    · exact hp

/-- A claim returns an unmarked source and marks it. -/
theorem claimed_of_claims {vm : Vm} {op : Operation} {source : Nat} (hvm : Consistent vm.plic)
    (hpos : 0 < source) (h : Claims vm op source) :
    ¬Claimed vm.plic source ∧ Claimed (finalState (op.run vm)).plic source := by
  obtain ⟨pmr, addr, size, context, value, t, rfl, hreg, hread, rfl⟩ := h
  rcases claimExact hvm pmr addr size context hreg with ⟨best, hbest, hok⟩ | ⟨-, hok⟩
  · have hlt := hbest.deliverable.lt
    have hvalue : value = BitVec.ofNat 64 best := by
      rw [hread] at hok
      cases hok
      rfl
    have hbestNat : value.toNat = best := by
      rw [hvalue, BitVec.toNat_ofNat]
      omega
    rw [hbestNat]
    constructor
    · rw [Claimed, hbest.deliverable.unclaimed]
      decide
    · have hrun : (Operation.read pmr addr size).run vm = .ok ()
          { vm with plic :=
            { vm.plic with claimed := vm.plic.claimed ||| Plic.sourceBit best } } := by
        show (pmr.pmrRead addr size >>= fun _ => pure ()) vm = _
        rw [bind_apply_ok hok]
        rfl
      rw [hrun]
      show (vm.plic.claimed ||| Plic.sourceBit best).getLsbD best = true
      rw [BitVec.getLsbD_or, getLsbD_sourceBit]
      simp [hlt]
  · have hzero : value = 0 := by
      rw [hread] at hok
      cases hok
      rfl
    rw [hzero] at hpos
    exact absurd hpos (by decide)

/-- What a completion does to the controller. -/
theorem plic_of_completes {vm : Vm} {op : Operation} {context source : Nat}
    (h : Completes vm op context source) :
    ∃ value : Word, value.toNat = source ∧
      (finalState (op.run vm)).plic = vm.plic.complete value := by
  obtain ⟨pmr, addr, size, value, rfl, hreg, hvalue⟩ := h
  refine ⟨value.setWidth 32, hvalue, ?_⟩
  rw [← plicWrite_claimRegister hreg]
  show (finalState (pmr.pmrWrite addr size value vm)).plic = _
  rw [pmrWrite_plic hreg.1]
  rfl

/-! ## Whole runs -/

/-- Claims are exclusive in a run, and completions of foreign sources have no effect. -/
structure ExclusiveClaims (vm : Vm) (ops : List Operation) : Prop where
  /-- Between two claims of one source lies a completion by a context that has it enabled. -/
  exclusive : ∀ i j opi opj source, i < j → ops[i]? = some opi → ops[j]? = some opj →
    0 < source → Claims (before vm ops i) opi source → Claims (before vm ops j) opj source →
    ∃ k opk context, i < k ∧ k < j ∧ ops[k]? = some opk ∧
      Completes (before vm ops k) opk context source ∧
      Enabled (before vm ops k).plic context source
  foreign_inert : ∀ k op context source, ops[k]? = some op →
    Completes (before vm ops k) op context source →
    ¬Enabled (before vm ops k).plic context source →
    (before vm ops (k + 1)).plic = (before vm ops k).plic

/-- No completion names a claimed source that is not enabled for the writing context. -/
def CompletesEnabled (vm : Vm) (ops : List Operation) : Prop :=
  ∀ k op context source, ops[k]? = some op → Completes (before vm ops k) op context source →
    Claimed (before vm ops k).plic source → Enabled (before vm ops k).plic context source

/-- From a claim on, the mark stays until a completion of the source. -/
theorem claimed_before {vm : Vm} {ops : List Operation} (hvm : Reached vm) {i j source : Nat}
    (hlen : j ≤ ops.length) (hi : Claimed (before vm ops i).plic source)
    (hother : ∀ k op context, i ≤ k → k < j → ops[k]? = some op →
      Claimed (before vm ops k).plic source → ¬Completes (before vm ops k) op context source)
    (n : Nat) (hin : i ≤ n) (hnj : n ≤ j) : Claimed (before vm ops n).plic source := by
  induction n, hin using Nat.le_induction with
  | base => exact hi
  | succ n hin ih =>
      have hop : ops[n]? = some ops[n] := List.getElem?_eq_getElem (by omega)
      have hn := ih (by omega)
      rw [before_succ hop]
      apply claimed_operation (consistent_before hvm ops n) hn
      intro context
      exact hother n _ context hin (by omega) hop hn

/-- Claims are exclusive exactly in the runs that complete no claimed source from outside. -/
theorem claims_exclusive_iff {vm : Vm} (hvm : Reached vm) (ops : List Operation) :
    ExclusiveClaims vm ops ↔ CompletesEnabled vm ops := by
  constructor
  · intro h k op context source hop hcompletes hclaimed
    by_contra hforeign
    have hsame := h.foreign_inert k op context source hop hcompletes hforeign
    obtain ⟨value, hvalue, hplic⟩ := plic_of_completes hcompletes
    rw [before_succ hop, hplic] at hsame
    have hkept : Claimed ((before vm ops k).plic.complete value) source := by
      rw [hsame]
      exact hclaimed
    exact (claimed_complete hclaimed (consistent_before hvm ops k)).mp hkept hvalue
  · intro h
    constructor
    · intro i j opi opj source hij hopi hopj hpos hclaimsi hclaimsj
      by_contra hnone
      have hjlen : j < ops.length := by
        by_contra hge
        rw [List.getElem?_eq_none (by omega)] at hopj
        cases hopj
      have hmarked : Claimed (before vm ops (i + 1)).plic source := by
        rw [before_succ hopi]
        exact (claimed_of_claims (consistent_before hvm ops i) hpos hclaimsi).2
      have hstill : Claimed (before vm ops j).plic source := by
        apply claimed_before hvm (by omega) hmarked ?_ j (by omega) (Nat.le_refl j)
        intro k op context hik hkj hop hclaimed hcompletes
        exact hnone ⟨k, op, context, by omega, hkj, hop, hcompletes,
          h k op context source hop hcompletes hclaimed⟩
      exact (claimed_of_claims (consistent_before hvm ops j) hpos hclaimsj).1 hstill
    · intro k op context source hop hcompletes hforeign
      obtain ⟨value, hvalue, hplic⟩ := plic_of_completes hcompletes
      rw [before_succ hop, hplic]
      apply complete_of_not_claimed (consistent_before hvm ops k)
      rw [hvalue]
      intro hclaimed
      exact hforeign (h k op context source hop hcompletes hclaimed)

/-! ## A run of the console -/

/--
The console's source is claimed by the supervisor of hart 0, completed through
the claim register at `completion`, and claimed again.
-/
def consoleRun (completion : Word) : List Operation :=
  let plic : PmRegion := { addrLow := 0x0c000000, addrHigh := 0x10000000, ops := .plic }
  [.write plic 0x0c000028 .b4 7, .write plic 0x0c002080 .b4 0x400, .setPending 10 true,
    .read plic 0x0c201004 .b4, .write plic completion .b4 10, .read plic 0x0c201004 .b4]

/-- The machine before operation `n` of that run, from power-on. -/
abbrev consoleBefore (completion : Word) (n : Nat) : Vm :=
  before (virtualMachineInit (fun _ => 0) fun _ => 0) (consoleRun completion) n

theorem reached_init : Reached (virtualMachineInit (fun _ => 0) fun _ => 0) :=
  .start rfl rfl rfl

-- every branch of a register access leaves the base alone
theorem base_read (p : Plic) (addr : Word) : (p.read addr).2.base = p.base := by
  unfold Plic.read Plic.claim
  simp only [apply_ite Prod.snd, apply_ite Plic.base, ite_self]

theorem base_write (p : Plic) (addr value : Word) : (p.write addr value).base = p.base := by
  unfold Plic.write Plic.complete
  simp only [apply_ite Plic.base, ite_self]

theorem base_operation (op : Operation) (vm : Vm) :
    (finalState (op.run vm)).plic.base = vm.plic.base := by
  apply Leaves.finalState (P := fun p => p.base = vm.plic.base)
  apply leaves_operation (P := fun p => p.base = vm.plic.base) ?_ op rfl
  · intro pmr addr size _ _
    exact base_read vm.plic addr
  · intro pmr addr size value _ _
    exact base_write vm.plic addr _
  · intro p source asserted _ hp
    unfold Plic.setPending
    split
    · exact hp
    · exact hp

theorem base_before (vm : Vm) (ops : List Operation) (n : Nat) :
    (before vm ops n).plic.base = vm.plic.base := by
  unfold before
  generalize ops.take n = done
  induction done generalizing vm with
  | nil => rfl
  | cons op rest ih =>
      rw [List.foldl_cons, ih, base_operation]

/-- The run has one completion, through the context of the given register. -/
theorem completes_consoleRun {completion : Word} {k context source : Nat} {op : Operation}
    (hop : (consoleRun completion)[k]? = some op)
    (h : Completes (consoleBefore completion k) op context source) :
    k = 4 ∧ source = 10 ∧ (completion - 0x0c000000).toNat = 0x200000 + context * 0x1000 + 4 := by
  obtain ⟨pmr, addr, size, value, rfl, ⟨-, -, hoffset⟩, rfl⟩ := h
  rw [base_before] at hoffset
  have hoffset' : (addr - 0x0c000000).toNat = 0x200000 + context * 0x1000 + 4 := hoffset
  have hk : k < 6 := by
    by_contra hge
    rw [List.getElem?_eq_none (by show 6 ≤ k; omega)] at hop
    cases hop
  interval_cases k
  · cases hop
    have hzero : (0x0c000028 - 0x0c000000 : Word).toNat = 0x28 := by decide
    omega
  · cases hop
    have hzero : (0x0c002080 - 0x0c000000 : Word).toNat = 0x2080 := by decide
    omega
  · cases hop
  · cases hop
  · cases hop
    exact ⟨rfl, rfl, hoffset'⟩
  · cases hop

/-- Completed through the context that claimed it, the source is handed out again. -/
theorem claims_exclusive_console :
    (consoleBefore 0x0c201004 4).plic.claimed = 0x400 ∧
      (consoleBefore 0x0c201004 6).plic.claimed = 0x400 ∧
      ExclusiveClaims (virtualMachineInit (fun _ => 0) fun _ => 0) (consoleRun 0x0c201004) := by
  refine ⟨by decide +kernel, by decide +kernel, ?_⟩
  apply (claims_exclusive_iff reached_init (consoleRun 0x0c201004)).mpr
  intro k op context source hop hcompletes _
  obtain ⟨rfl, rfl, hoffset⟩ := completes_consoleRun hop hcompletes
  have hcontext : context = 1 := by
    have hvalue : (0x0c201004 - 0x0c000000 : Word).toNat = 0x201004 := by decide
    omega
  rw [hcontext, Enabled]
  decide +kernel

/-- Completed through another context, the source is handed out while it is still served. -/
theorem foreign_completion_hands_out_twice :
    ¬∀ (vm : Vm) (ops : List Operation), Reached vm → ExclusiveClaims vm ops := by
  intro h
  have hclaims : ∀ n, n = 3 ∨ n = 5 → Claims (consoleBefore 0x0c200004 n)
      (.read { addrLow := 0x0c000000, addrHigh := 0x10000000, ops := .plic } 0x0c201004 .b4) 10 := by
    intro n hn
    have hok : ((consoleBefore 0x0c200004 n).plic.read 0x0c201004).1 = 10 := by
      rcases hn with rfl | rfl <;> decide +kernel
    have hcontexts : 1 < (consoleBefore 0x0c200004 n).plic.nrContexts := by
      rcases hn with rfl | rfl <;> decide +kernel
    refine ⟨_, _, _, 1, _, _, rfl, ⟨rfl, hcontexts, ?_⟩, pmrRead_plic rfl _ _ _, ?_⟩
    · rw [base_before]
      decide
    · rw [hok]
      decide
  obtain ⟨k, op, context, -, -, hop, hcompletes, henabled⟩ :=
    (h _ (consoleRun 0x0c200004) reached_init).exclusive 3 5 _ _ 10 (by decide) rfl rfl
      (by decide) (hclaims 3 (.inl rfl)) (hclaims 5 (.inr rfl))
  obtain ⟨rfl, -, hoffset⟩ := completes_consoleRun hop hcompletes
  have hcontext : context = 0 := by
    have hvalue : (0x0c200004 - 0x0c000000 : Word).toNat = 0x200004 := by decide
    omega
  rw [hcontext, Enabled] at henabled
  exact absurd henabled (by decide +kernel)

end Zelda.Proofs.PlicClaims
