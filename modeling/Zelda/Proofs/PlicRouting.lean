import Zelda.Lib.Arbiter
import Zelda.Proofs.Callees
import Zelda.Vmm.Init
import Zelda.Vmm.Interrupt
/-!
# Interrupt routing

The interrupt controller keeps three bit sets.  The pending set is always the
asserted one, so what a context sees is decided by the level of each source,
its claim, its enable bit and its priority.
-/

namespace Zelda.Proofs.PlicRouting

open Zelda.Vmm
open Zelda.Lib.Effect
open Zelda.Lib.Arbiter
open Zelda.Proofs.Callees

/-! ## Source bits -/

theorem getLsbD_sourceBit (source i : Nat) :
    (Plic.sourceBit source).getLsbD i = (decide (i < 32) && decide (i = source)) := by
  have h : (Plic.sourceBit source).getLsbD i = (decide (source < 32) && decide (source = i)) :=
    BitVec.getLsbD_twoPow source i
  rw [h]
  by_cases hs : i = source
  · subst hs
    rfl
  · simp [hs, Ne.symm hs]

theorem and_sourceBit_eq_zero {blob : Word} {source : Nat} (h : source < 32) :
    blob &&& Plic.sourceBit source = 0 ↔ blob.getLsbD source = false := by
  constructor
  · intro hzero
    have hbit := congrArg (fun w : Word => w.getLsbD source) hzero
    rw [BitVec.getLsbD_and, getLsbD_sourceBit] at hbit
    simpa [h, -BitVec.getLsbD_eq_getElem] using hbit
  · intro hclear
    apply BitVec.eq_of_getLsbD_eq
    intro i hi
    by_cases hs : i = source
    · subst hs
      simp [hclear]
    · simp [getLsbD_sourceBit, hs]

/-! ## The state of the controller -/

/-- What every operation keeps: pending mirrors the lines, and source 0 does not exist. -/
structure Consistent (p : Plic) : Prop where
  pending_eq : p.pending = p.asserted
  pending_zero : p.pending.getLsbD 0 = false
  claimed_zero : p.claimed.getLsbD 0 = false

/-- A source that a context may be interrupted by. -/
structure Deliverable (p : Plic) (context source : Nat) : Prop where
  asserted : p.asserted.getLsbD source = true
  unclaimed : p.claimed.getLsbD source = false
  enabled : (p.enable context).getLsbD source = true
  above : p.threshold context < p.priority source

/-- The source a claim hands out: greatest priority, smallest number on ties. -/
structure Best (p : Plic) (context source : Nat) : Prop where
  deliverable : Deliverable p context source
  greatest : ∀ other, Deliverable p context other → p.priority other ≤ p.priority source
  first : ∀ other, Deliverable p context other → other < source →
    p.priority other < p.priority source

theorem Deliverable.pos {p : Plic} (hp : Consistent p) {context source : Nat}
    (h : Deliverable p context source) : 0 < source := by
  rcases Nat.eq_zero_or_pos source with rfl | hpos
  · have hbit := hp.pending_zero
    rw [hp.pending_eq, h.asserted] at hbit
    cases hbit
  · exact hpos

theorem Deliverable.lt {p : Plic} {context source : Nat} (h : Deliverable p context source) :
    source < 32 :=
  BitVec.lt_of_getLsbD h.asserted

/-- The candidate test of the scan, in the terms of the claim. -/
theorem deliverable_iff {p : Plic} (hp : Consistent p) {context source : Nat}
    (hlt : source < 32) :
    Deliverable p context source ↔
      p.pending &&& ~~~p.claimed &&& p.enable context &&& Plic.sourceBit source ≠ 0 ∧
        ¬p.priority source ≤ p.threshold context := by
  have hbits : p.pending &&& ~~~p.claimed &&& p.enable context &&& Plic.sourceBit source ≠ 0 ↔
      p.asserted.getLsbD source = true ∧ p.claimed.getLsbD source = false ∧
        (p.enable context).getLsbD source = true := by
    rw [Ne, and_sourceBit_eq_zero hlt, hp.pending_eq]
    simp [hlt]
  rw [hbits, Std.not_le]
  exact ⟨fun h => ⟨⟨h.asserted, h.unclaimed, h.enabled⟩, h.above⟩,
    fun ⟨⟨ha, hc, he⟩, hp⟩ => ⟨ha, hc, he, hp⟩⟩

/-- `plic_best_source` is zero without a deliverable source and the best one otherwise. -/
theorem bestSource_spec {p : Plic} (hp : Consistent p) (context : Nat) :
    (p.bestSource context = 0 ∧ ∀ source, ¬Deliverable p context source) ∨
      Best p context (p.bestSource context) := by
  have hscan : Scanned (fun i => i < 32 ∧ Deliverable p context i) p.priority 0 0 1
      PLIC_NR_SOURCES ((List.range' 1 (PLIC_NR_SOURCES - 1)).foldl (p.bestStep context) (0, 0)) := by
    refine scanned_foldl _ p.priority 0 0 1 ?_ ?_ ?_ ?_ (PLIC_NR_SOURCES - 1)
    · rintro best i ⟨hlt, hi⟩ hbeats
      obtain ⟨hcandidate, habove⟩ := (deliverable_iff hp hlt).mp hi
      unfold Plic.bestStep
      rw [if_neg hcandidate, if_neg habove, if_pos hbeats]
    · intro best i hi
      unfold Plic.bestStep
      by_cases hlt : i < 32
      · by_cases hcandidate : p.pending &&& ~~~p.claimed &&& p.enable context &&&
            Plic.sourceBit i = 0
        · exact if_pos hcandidate
        · by_cases habove : p.priority i ≤ p.threshold context
          · rw [if_neg hcandidate, if_pos habove]
          · exact absurd ⟨hlt, (deliverable_iff hp hlt).mpr ⟨hcandidate, habove⟩⟩ hi
      · have hzero : Plic.sourceBit i = 0 := by
          apply BitVec.eq_of_getLsbD_eq
          intro j hj
          have hne : j ≠ i := by omega
          simp [getLsbD_sourceBit, hne]
        rw [hzero]
        exact if_pos BitVec.and_zero
    · intro best i hbeats
      unfold Plic.bestStep
      simp only [hbeats, if_false, ite_self]
    · rintro i ⟨-, hi⟩
      exact Std.lt_of_le_of_lt (BitVec.le_def.mpr (Nat.zero_le _)) hi.above
  rcases hscan with ⟨hbest, hnone⟩ | ⟨-, hwins⟩
  · refine .inl ⟨congrArg Prod.fst hbest, fun source hs => ?_⟩
    exact hnone source (hs.pos hp) hs.lt ⟨hs.lt, hs⟩
  · refine .inr ⟨hwins.mem.2, fun other ho => ?_, fun other ho hlt => ?_⟩
    · exact hwins.greatest other (ho.pos hp) ho.lt ⟨ho.lt, ho⟩
    · exact hwins.first other (ho.pos hp) hlt ⟨ho.lt, ho⟩

theorem bestSource_ne_zero_iff {p : Plic} (hp : Consistent p) (context : Nat) :
    p.bestSource context ≠ 0 ↔ ∃ source, Deliverable p context source := by
  rcases bestSource_spec hp context with ⟨hzero, hnone⟩ | hbest
  · simp [hzero, hnone]
  · exact ⟨fun _ => ⟨_, hbest.deliverable⟩, fun _ => (hbest.deliverable.pos hp).ne'⟩

/-! ## Single operations -/

theorem consistent_setPending {p : Plic} (hp : Consistent p) {source : Nat} (hpos : 0 < source)
    (asserted : Bool) : Consistent (p.setPending source asserted) := by
  have hzero : (Plic.sourceBit source).getLsbD 0 = false := by
    rw [getLsbD_sourceBit]
    simp [hpos.ne]
  unfold Plic.setPending
  split
  · refine ⟨by rw [hp.pending_eq], ?_, hp.claimed_zero⟩
    rw [BitVec.getLsbD_or, hp.pending_zero, hzero, Bool.false_or]
  · refine ⟨by rw [hp.pending_eq], ?_, hp.claimed_zero⟩
    rw [BitVec.getLsbD_and, hp.pending_zero, Bool.false_and]

theorem consistent_claim {p : Plic} (hp : Consistent p) (context : Nat) :
    Consistent (p.claim context).2 := by
  unfold Plic.claim
  rcases bestSource_spec hp context with ⟨hzero, -⟩ | hbest
  · rw [if_pos hzero]
    exact hp
  · have hpos := hbest.deliverable.pos hp
    rw [if_neg hpos.ne']
    refine ⟨hp.pending_eq, hp.pending_zero, ?_⟩
    rw [BitVec.getLsbD_or, hp.claimed_zero, getLsbD_sourceBit]
    simp [hpos.ne]

/-- Completion has no effect on the pending set: it already mirrors the lines. -/
theorem complete_pending {p : Plic} (hp : Consistent p) (source : Word) :
    (p.complete source).pending = p.pending := by
  unfold Plic.complete
  split
  · rfl
  · rename_i hrange
    have hlt : source.toNat < 32 := Nat.lt_of_not_le fun h => hrange (.inr h)
    simp only
    apply BitVec.eq_of_getLsbD_eq
    intro i hi
    by_cases hclear : p.asserted &&& Plic.sourceBit source.toNat = 0
    · rw [if_pos hclear]
      rw [and_sourceBit_eq_zero hlt, ← hp.pending_eq] at hclear
      rw [BitVec.getLsbD_and, BitVec.getLsbD_not, getLsbD_sourceBit]
      by_cases hs : i = source.toNat
      · rw [hs, hclear, Bool.false_and]
      · simp [hs, hi]
    · rw [if_neg hclear]
      rw [and_sourceBit_eq_zero hlt, ← hp.pending_eq, Bool.not_eq_false] at hclear
      rw [BitVec.getLsbD_or, getLsbD_sourceBit]
      by_cases hs : i = source.toNat
      · rw [hs, hclear, Bool.true_or]
      · simp [hs]

theorem complete_asserted (p : Plic) (source : Word) : (p.complete source).asserted = p.asserted := by
  unfold Plic.complete
  split <;> rfl

theorem consistent_complete {p : Plic} (hp : Consistent p) (source : Word) :
    Consistent (p.complete source) := by
  refine ⟨?_, ?_, ?_⟩
  · rw [complete_pending hp, complete_asserted, hp.pending_eq]
  · rw [complete_pending hp, hp.pending_zero]
  · unfold Plic.complete
    split
    · exact hp.claimed_zero
    · rw [BitVec.getLsbD_and, hp.claimed_zero, Bool.false_and]

theorem consistent_read {p : Plic} (hp : Consistent p) (addr : Word) :
    Consistent (p.read addr).2 := by
  unfold Plic.read
  simp only
  split
  · exact hp
  split
  · exact hp
  split
  · exact hp
  split
  · split
    · split
      · exact hp
      split
      · exact consistent_claim hp _
      · exact hp
    · exact hp
  · exact hp

theorem consistent_write {p : Plic} (hp : Consistent p) (addr value : Word) :
    Consistent (p.write addr value) := by
  have hkeep : ∀ q : Plic, q.pending = p.pending → q.asserted = p.asserted →
      q.claimed = p.claimed → Consistent q := by
    intro q hq₁ hq₂ hq₃
    refine ⟨?_, ?_, ?_⟩
    · rw [hq₁, hq₂, hp.pending_eq]
    · rw [hq₁, hp.pending_zero]
    · rw [hq₃, hp.claimed_zero]
  unfold Plic.write
  simp only
  split
  · split
    · exact hp
    · exact hkeep _ rfl rfl rfl
  split
  · exact hp
  split
  · split
    · exact hkeep _ rfl rfl rfl
    · exact hp
  split
  · split
    · split
      · exact hkeep _ rfl rfl rfl
      split
      · exact consistent_complete hp value
      · exact hp
    · exact hp
  · exact hp

/-! ## Runs -/

/-- What drives the controller. -/
inductive Operation
  | setPending (source : Nat) (asserted : Bool)
  /-- A guest read of any register of any region. -/
  | read (pmr : PmRegion) (addr : Word) (size : AccessSize)
  | write (pmr : PmRegion) (addr : Word) (size : AccessSize) (value : DWord)
  | pollInput
  | refreshPending
  | refreshDevices

def Operation.run : Operation → VmM Unit
  | .setPending source asserted => do
      assert (0 < source && source < PLIC_NR_SOURCES)
      modify fun vm => { vm with plic := vm.plic.setPending source asserted }
  | .read pmr addr size => do
      let _ ← pmr.pmrRead addr size
  | .write pmr addr size value => pmr.pmrWrite addr size value
  | .pollInput => uartPollInput
  | .refreshPending => plicRefreshPending
  | .refreshDevices => refreshDeviceInterrupts

section Operations

variable {P : Plic → Prop} {vm : Vm}
  (hset : ∀ p source asserted, 0 < source → P p → P (p.setPending source asserted))

/-- From `vm` a computation ends with a controller in `P`, whichever way it ends. -/
abbrev Leaves {α : Type} (P : Plic → Prop) (m : VmM α) (vm : Vm) : Prop :=
  Wp m (fun _ t => P t.plic) (fun _ t => P t.plic) vm

include hset in
theorem leaves_pmrRead (pmr : PmRegion) (addr : Word) (size : AccessSize) (hvm : P vm.plic)
    (hread : pmr.ops = .plic → P (vm.plic.read addr).2) : Leaves P (pmr.pmrRead addr size) vm := by
  unfold PmRegion.pmrRead
  split
  · unfold ramRead
    simp only [wp_bind, wp_get]
    split
    · exact hvm
    · exact hvm
  · unfold bootromRead
    simp only [wp_bind, wp_get]
    split
    · exact hvm
    split
    · exact hvm
    · exact hvm
  · exact hvm
  · rename_i hops
    exact hread hops
  · exact hset _ _ _ (by decide) hvm
  · exact hvm

include hset in
theorem leaves_pmrWrite (pmr : PmRegion) (addr : Word) (size : AccessSize) (value : DWord) (hvm : P vm.plic)
    (hwrite : pmr.ops = .plic → P (vm.plic.write addr (value.setWidth 32))) :
    Leaves P (pmr.pmrWrite addr size value) vm := by
  unfold PmRegion.pmrWrite
  split
  · unfold ramWrite
    simp only [wp_bind, wp_get]
    split
    · exact hvm
    · exact hvm
  · unfold bootromWrite
    simp only [wp_bind, wp_get]
    split
    · exact hvm
    split
    · exact hvm
    · exact hvm
  · exact hvm
  · rename_i hops
    exact hwrite hops
  · unfold uartMmioWrite
    split
    · exact hvm
    · exact hset _ _ _ (by decide) hvm
  · unfold sysconWrite
    split
    · exact hvm
    · exact hvm

theorem leaves_uartPollInput (hvm : P vm.plic) : Leaves P uartPollInput vm := by
  unfold uartPollInput
  simp only [wp_bind, wp_get]
  split
  · exact hvm
  split
  · exact hvm
  split
  · exact hvm
  · exact hvm

include hset in
theorem leaves_refreshDeviceInterrupts (hvm : P vm.plic) : Leaves P refreshDeviceInterrupts vm := by
  have hrest : ∀ s : Vm, P s.plic →
      Leaves P (do uartRefreshInterrupt; clintRefreshPending; plicRefreshPending) s := fun s hs =>
    hset _ _ _ (by decide) hs
  unfold refreshDeviceInterrupts
  rw [Leaves, wp_bind, wp_get]
  by_cases hpoll : vm.pollCountdown = 0
  · rw [if_pos hpoll, wp_bind, wp_set, wp_bind]
    have hpolled : Leaves P uartPollInput { vm with pollCountdown := CONSOLE_POLL_INTERVAL } :=
      leaves_uartPollInput hvm
    exact wp_mono hpolled (fun _ t ht => hrest t ht) fun _ _ ht => ht
  · rw [if_neg hpoll]
    exact hrest { vm with pollCountdown := vm.pollCountdown - 1 } hvm

include hset in
/--
An operation reaches the controller by one of its register callbacks or by a
line of a device, so a predicate survives it if it survives these.
-/
theorem leaves_operation (op : Operation) (hvm : P vm.plic)
    (hread : ∀ pmr addr size, op = .read pmr addr size → pmr.ops = .plic →
      P (vm.plic.read addr).2)
    (hwrite : ∀ pmr addr size value, op = .write pmr addr size value → pmr.ops = .plic →
      P (vm.plic.write addr (value.setWidth 32))) : Leaves P op.run vm := by
  cases op with
  | setPending source asserted =>
      show Wp (assert _ >>= fun _ => _) _ _ vm
      unfold assert
      by_cases hrange : (0 < source && source < PLIC_NR_SOURCES) = true
      · have hpos : 0 < source := by
          rw [Bool.and_eq_true, decide_eq_true_eq] at hrange
          exact hrange.1
        rw [if_pos hrange]
        exact hset _ _ _ hpos hvm
      · rw [if_neg hrange]
        exact hvm
  | read pmr addr size =>
      show Wp (pmr.pmrRead addr size >>= fun _ => pure ()) _ _ vm
      rw [wp_bind]
      exact leaves_pmrRead hset pmr addr size hvm (hread pmr addr size rfl)
  | write pmr addr size value =>
      exact leaves_pmrWrite hset pmr addr size value hvm (hwrite pmr addr size value rfl)
  | pollInput => exact leaves_uartPollInput hvm
  | refreshPending => exact hvm
  | refreshDevices => exact leaves_refreshDeviceInterrupts hset hvm

theorem Leaves.finalState {α : Type} {m : VmM α} (h : Leaves P m vm) :
    P (finalState (m vm)).plic := by
  unfold Leaves Wp at h
  cases hm : m vm with
  | ok a t =>
      rw [hm] at h
      exact h
  | error e t =>
      rw [hm] at h
      exact h

end Operations

theorem consistent_operation (op : Operation) {vm : Vm} (hvm : Consistent vm.plic) :
    Consistent (finalState (op.run vm)).plic := by
  apply Leaves.finalState
  apply leaves_operation (P := Consistent) ?_ op hvm
  · intro pmr addr size _ _
    exact consistent_read hvm addr
  · intro pmr addr size value _ _
    exact consistent_write hvm addr _
  · intro p source asserted hpos hp
    exact consistent_setPending hp hpos asserted

/-- The states reached from a controller with no source asserted or claimed. -/
inductive Reached : Vm → Prop
  | start {vm : Vm} (asserted : vm.plic.asserted = 0) (pending : vm.plic.pending = 0)
      (claimed : vm.plic.claimed = 0) : Reached vm
  | step {vm : Vm} (op : Operation) (reached : Reached vm) : Reached (finalState (op.run vm))

theorem Reached.consistent {vm : Vm} (h : Reached vm) : Consistent vm.plic := by
  induction h with
  | start asserted pending claimed =>
      refine ⟨by rw [pending, asserted], ?_, ?_⟩
      · rw [pending]
        exact BitVec.getLsbD_zero
      · rw [claimed]
        exact BitVec.getLsbD_zero
  | step op _ ih => exact consistent_operation op ih

theorem Reached.foldl {vm : Vm} (h : Reached vm) (ops : List Operation) :
    Reached (ops.foldl (fun vm op => finalState (op.run vm)) vm) := by
  induction ops generalizing vm with
  | nil => exact h
  | cons op ops ih => exact ih (.step op h)

/-! ## What the guest observes -/

/-- A refresh raises the external interrupt of exactly the contexts that can be served. -/
def RefreshExact (vm : Vm) : Prop :=
  Wp plicRefreshPending
    (fun _ t =>
      (t.hart.ipending.getLsbD INTERRUPT_MACHINE_EXTERNAL = true ↔
        ∃ source, Deliverable vm.plic (vm.hart.hartId * 2) source) ∧
      (t.hart.ipending.getLsbD INTERRUPT_SUPERVISOR_EXTERNAL = true ↔
        ∃ source, Deliverable vm.plic (vm.hart.hartId * 2 + 1) source))
    (fun _ _ => False) vm

/-- The address of a context's claim register. -/
def IsClaimRegister (vm : Vm) (pmr : PmRegion) (addr : Word) (context : Nat) : Prop :=
  pmr.ops = .plic ∧ context < vm.plic.nrContexts ∧
    (addr - vm.plic.base).toNat =
      PLIC_REG_CONTEXT_BASE + context * PLIC_REG_CONTEXT_STRIDE + PLIC_REG_CONTEXT_CLAIM

/-- A claim hands out the best source and marks it, or returns zero and does nothing. -/
def ClaimExact (vm : Vm) : Prop :=
  ∀ pmr addr size context, IsClaimRegister vm pmr addr context →
    (∃ source, Best vm.plic context source ∧
      pmr.pmrRead addr size vm = .ok (BitVec.ofNat 64 source)
        { vm with plic :=
          { vm.plic with claimed := vm.plic.claimed ||| Plic.sourceBit source } }) ∨
      ((∀ source, ¬Deliverable vm.plic context source) ∧
        pmr.pmrRead addr size vm = .ok 0 vm)

/-- A completed source whose line is still up contends again wherever it is enabled. -/
def CompletionRearms (vm : Vm) : Prop :=
  ∀ pmr addr size context value, IsClaimRegister vm pmr addr context →
    ∀ source, 0 < source → source < PLIC_NR_SOURCES → (value : DWord).setWidth 32 =
      BitVec.ofNat 32 source → vm.plic.asserted.getLsbD source = true →
    Wp (pmr.pmrWrite addr size value)
      (fun _ t => ∀ context', Deliverable t.plic context' source ↔
        (vm.plic.enable context').getLsbD source = true ∧
          vm.plic.threshold context' < vm.plic.priority source)
      (fun _ _ => False) vm

/-- After a refresh by the device pump the UART's line follows its registers. -/
def UartLineExact (vm : Vm) : Prop :=
  Wp refreshDeviceInterrupts
    (fun _ t => t.plic.asserted.getLsbD PLIC_IRQ_UART0 = true ↔
      (t.uart.ier &&& UART_IER_RX_AVAIL ≠ 0 ∧ t.uart.rxEmpty = false) ∨
        t.uart.ier &&& UART_IER_THR_EMPTY ≠ 0)
    (fun e _ => e = .exit) vm

theorem refreshExact {vm : Vm} (hvm : Consistent vm.plic) : RefreshExact vm := by
  show (_ ↔ _) ∧ (_ ↔ _)
  rw [← bestSource_ne_zero_iff hvm, ← bestSource_ne_zero_iff hvm]
  rw [getLsbD_assignBit _ _ (by decide), getLsbD_assignBit _ _ (by decide),
    getLsbD_assignBit _ _ (by decide)]
  constructor
  · rw [if_neg (by decide), if_pos (by decide), bne_iff_ne]
  · rw [if_pos (by decide), bne_iff_ne]

theorem pmrRead_plic {pmr : PmRegion} (hops : pmr.ops = .plic) (addr : Word) (size : AccessSize)
    (vm : Vm) : pmr.pmrRead addr size vm =
      .ok ((vm.plic.read addr).1.setWidth 64) { vm with plic := (vm.plic.read addr).2 } := by
  unfold PmRegion.pmrRead
  rw [hops]
  rfl

theorem pmrWrite_plic {pmr : PmRegion} (hops : pmr.ops = .plic) (addr : Word) (size : AccessSize)
    (value : DWord) (vm : Vm) : pmr.pmrWrite addr size value vm =
      .ok () { vm with plic := vm.plic.write addr (value.setWidth 32) } := by
  unfold PmRegion.pmrWrite
  rw [hops]
  rfl

/-- The context and the register that the offset of a claim register stands for. -/
theorem contextRegister (context : Nat) :
    (0x200000 + context * 0x1000 + 0x4 - 0x200000) / 0x1000 = context ∧
      (0x200000 + context * 0x1000 + 0x4 - 0x200000) % 0x1000 = 0x4 := by
  omega

theorem plicRead_claimRegister {vm : Vm} {pmr : PmRegion} {addr : Word} {context : Nat}
    (h : IsClaimRegister vm pmr addr context) : vm.plic.read addr = vm.plic.claim context := by
  obtain ⟨-, hcontext, hoffset⟩ := h
  unfold Plic.read
  simp only [hoffset, PLIC_REG_CONTEXT_BASE, PLIC_REG_CONTEXT_STRIDE, PLIC_REG_CONTEXT_CLAIM,
    PLIC_REG_CONTEXT_THRESHOLD, PLIC_REG_PENDING_BASE, PLIC_REG_ENABLE_BASE, PLIC_NR_SOURCES]
  obtain ⟨hdiv, hmod⟩ := contextRegister context
  rw [if_neg (by omega), if_neg (by omega), if_neg (by omega), if_pos (by omega), hdiv, hmod,
    if_pos hcontext, if_neg (by decide), if_pos rfl]

theorem plicWrite_claimRegister {vm : Vm} {pmr : PmRegion} {addr : Word} {context : Nat}
    (h : IsClaimRegister vm pmr addr context) (value : Word) :
    vm.plic.write addr value = vm.plic.complete value := by
  obtain ⟨-, hcontext, hoffset⟩ := h
  unfold Plic.write
  simp only [hoffset, PLIC_REG_CONTEXT_BASE, PLIC_REG_CONTEXT_STRIDE, PLIC_REG_CONTEXT_CLAIM,
    PLIC_REG_CONTEXT_THRESHOLD, PLIC_REG_PENDING_BASE, PLIC_REG_ENABLE_BASE, PLIC_NR_SOURCES]
  obtain ⟨hdiv, hmod⟩ := contextRegister context
  rw [if_neg (by omega), if_neg (by omega), if_neg (by omega), if_pos (by omega), hdiv, hmod,
    if_pos hcontext, if_neg (by decide), if_pos rfl]

theorem claimExact {vm : Vm} (hvm : Consistent vm.plic) : ClaimExact vm := by
  intro pmr addr size context hreg
  have hread : pmr.pmrRead addr size vm =
      .ok ((vm.plic.claim context).1.setWidth 64) { vm with plic := (vm.plic.claim context).2 } := by
    rw [← plicRead_claimRegister hreg]
    exact pmrRead_plic hreg.1 addr size vm
  rw [hread]
  unfold Plic.claim
  rcases bestSource_spec hvm context with ⟨hzero, hnone⟩ | hbest
  · right
    refine ⟨hnone, ?_⟩
    rw [if_pos hzero]
    rfl
  · left
    refine ⟨_, hbest, ?_⟩
    have hlt := hbest.deliverable.lt
    have hvalue : (BitVec.ofNat 32 (vm.plic.bestSource context)).setWidth 64 =
        BitVec.ofNat 64 (vm.plic.bestSource context) := by
      apply BitVec.eq_of_toNat_eq
      simp only [BitVec.toNat_setWidth, BitVec.toNat_ofNat]
      omega
    rw [if_neg (hbest.deliverable.pos hvm).ne', hvalue]

theorem completionRearms (vm : Vm) : CompletionRearms vm := by
  intro pmr addr size context value hreg source hpos hlt hvalue hline
  have hwrite : pmr.pmrWrite addr size value vm =
      .ok () { vm with plic := vm.plic.complete (BitVec.ofNat 32 source) } := by
    rw [← plicWrite_claimRegister hreg, ← hvalue]
    exact pmrWrite_plic hreg.1 addr size value vm
  rw [wp_of_ok hwrite]
  intro context'
  have hlt' : source < 32 := hlt
  have htoNat : (BitVec.ofNat 32 source).toNat = source := by
    rw [BitVec.toNat_ofNat]
    omega
  have hrange : ¬(BitVec.ofNat 32 source = 0 ∨ PLIC_NR_SOURCES ≤ (BitVec.ofNat 32 source).toNat) := by
    rintro (hzero | hle)
    · have := congrArg BitVec.toNat hzero
      rw [htoNat] at this
      exact hpos.ne' this
    · rw [htoNat] at hle
      omega
  have hclaimed : (vm.plic.complete (BitVec.ofNat 32 source)).claimed.getLsbD source = false := by
    unfold Plic.complete
    rw [if_neg hrange]
    simp [htoNat, getLsbD_sourceBit, hlt', -BitVec.getLsbD_eq_getElem]
  have hkeep : (vm.plic.complete (BitVec.ofNat 32 source)).enable = vm.plic.enable ∧
      (vm.plic.complete (BitVec.ofNat 32 source)).threshold = vm.plic.threshold ∧
      (vm.plic.complete (BitVec.ofNat 32 source)).priority = vm.plic.priority := by
    unfold Plic.complete
    rw [if_neg hrange]
    exact ⟨rfl, rfl, rfl⟩
  obtain ⟨henable, hthreshold, hpriority⟩ := hkeep
  constructor
  · rintro ⟨-, -, he, ha⟩
    rw [henable] at he
    rw [hthreshold, hpriority] at ha
    exact ⟨he, ha⟩
  · rintro ⟨he, ha⟩
    refine ⟨?_, hclaimed, ?_, ?_⟩
    · rw [complete_asserted, hline]
    · rw [henable, he]
    · rw [hthreshold, hpriority]
      exact ha

theorem interruptPending_iff (u : Uart) :
    u.interruptPending = true ↔
      (u.ier &&& UART_IER_RX_AVAIL ≠ 0 ∧ u.rxEmpty = false) ∨
        u.ier &&& UART_IER_THR_EMPTY ≠ 0 := by
  unfold Uart.interruptPending
  simp only [Bool.not_eq_true]
  split
  · rename_i hrx
    exact ⟨fun _ => .inl hrx, fun _ => rfl⟩
  · rename_i hrx
    split
    · rename_i hthr
      exact ⟨fun _ => .inr hthr, fun _ => rfl⟩
    · rename_i hthr
      exact ⟨fun h => absurd h (by decide), fun h => (h.elim hrx hthr).elim⟩

theorem asserted_setPending (p : Plic) {source : Nat} (hlt : source < 32) (asserted : Bool) :
    (p.setPending source asserted).asserted.getLsbD source = asserted := by
  unfold Plic.setPending
  cases asserted with
  | true => simp [getLsbD_sourceBit, hlt, -BitVec.getLsbD_eq_getElem]
  | false => simp [getLsbD_sourceBit, hlt, -BitVec.getLsbD_eq_getElem]

theorem uartLineExact (vm : Vm) : UartLineExact vm := by
  have hrest : ∀ s : Vm, Wp (do uartRefreshInterrupt; clintRefreshPending; plicRefreshPending)
      (fun _ t => t.plic.asserted.getLsbD PLIC_IRQ_UART0 = true ↔
        (t.uart.ier &&& UART_IER_RX_AVAIL ≠ 0 ∧ t.uart.rxEmpty = false) ∨
          t.uart.ier &&& UART_IER_THR_EMPTY ≠ 0) (fun e _ => e = Abort.exit) s := by
    intro s
    simp only [← interruptPending_iff]
    show (s.plic.setPending PLIC_IRQ_UART0 s.uart.interruptPending).asserted.getLsbD
      PLIC_IRQ_UART0 = true ↔ s.uart.interruptPending = true
    rw [asserted_setPending _ (by decide)]
  unfold UartLineExact refreshDeviceInterrupts
  rw [wp_bind, wp_get]
  by_cases hpoll : vm.pollCountdown = 0
  · rw [if_pos hpoll, wp_bind, wp_set, wp_bind]
    unfold uartPollInput
    simp only [wp_bind, wp_get]
    split
    · exact hrest _
    split
    · exact hrest _
    split
    · exact hrest _
    · rfl
  · rw [if_neg hpoll]
    exact hrest _

/-- Routing is complete and correctly prioritised in every state of every run. -/
theorem plic_routes {vm : Vm} (h : Reached vm) :
    (vm.plic.pending = vm.plic.asserted ∧ vm.plic.pending.getLsbD 0 = false ∧
      vm.plic.claimed.getLsbD 0 = false) ∧
    RefreshExact vm ∧ ClaimExact vm ∧ CompletionRearms vm ∧ UartLineExact vm := by
  have hvm := h.consistent
  exact ⟨⟨hvm.pending_eq, hvm.pending_zero, hvm.claimed_zero⟩, refreshExact hvm, claimExact hvm,
    completionRearms vm, uartLineExact vm⟩

/-- The console's source enabled for the supervisor of hart 0, with its line up. -/
def consoleVm : Vm :=
  let plic : PmRegion := { addrLow := 0x0c000000, addrHigh := 0x10000000, ops := .plic }
  let ops : List Operation :=
    [.write plic 0x0c000028 .b4 7, .write plic 0x0c002080 .b4 0x400, .setPending 10 true]
  ops.foldl (fun vm op => finalState (op.run vm)) (virtualMachineInit (fun _ => 0) fun _ => 0)

theorem plic_routes_console :
    consoleVm.plic.bestSource 1 = PLIC_IRQ_UART0 ∧ consoleVm.plic.bestSource 0 = 0 ∧
      ClaimExact consoleVm := by
  have hreached : Reached consoleVm := Reached.foldl (.start rfl rfl rfl) _
  exact ⟨by decide +kernel, by decide +kernel, (plic_routes hreached).2.2.1⟩

end Zelda.Proofs.PlicRouting
