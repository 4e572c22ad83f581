import Zelda.Proofs.Prefetch
import Zelda.Vmm.Init
/-!
# Runs of the machine

A run interleaves translated instructions, prefetches and device pumps in any
order.  An invariant of the control state is shown once for each way that
state can change and then holds in every state of every run.
-/

namespace Zelda.Proofs.Runs

open Zelda.Vmm
open Zelda.Lib.Effect
open Zelda.Lib.X86
open Zelda.Proofs.Frames
open Zelda.Proofs.Callees
open Zelda.Proofs.Prefetch

/-! ## Prefetches -/

/-- A predicate that survives what a prefetch adds to the hart. -/
structure PrefetchClosed (I : Hart → Prop) : Prop where
  commit : ∀ {hc : HostCode} {e : Emitted} {address : Word} {h h' : Hart},
    Committed hc e address h h' → I h → I h'
  count : ∀ (h : Hart) n, I h → I { h with ghostPrefetches := n }
  jumper : ∀ (hc : HostCode) (h : Hart), I h → I (h.appendJumper hc)
  flush : ∀ h : Hart, I h → I h.flushTranslationCache

section Prefetch

variable {I : Hart → Prop} {traps : Hart → BitVec 2 → Word → Prop} {E : Abort → Vm → Prop}
variable (hI : FillClosed I) (hF : PrefetchClosed I) (hE : Leaves I traps E)
variable (hfetch : MayRaise I traps EXCEPTION_INSTRUCTION_PAGE_FAULT)

include hF hE in
theorem ends_commitTranslation (hc : HostCode) (e : Emitted) (address : Word) :
    Ends (OnHart I) E (commitTranslation hc address e.indicator e.params) := by
  intro s hs
  refine wp_mono (commitTranslation_frame hc e address s) ?_ ?_
  · rintro _ t ⟨h', hcommit, rfl⟩
    exact hF.commit hcommit hs
  · rintro e' t ⟨hne, rfl⟩
    exact hE.stop e' t hne hs

include hF in
theorem ends_precheckTranslationCache (hc : HostCode) (indicator : Indicator)
    (blob : PrefetchBlob) :
    Ends (OnHart I) E (precheckTranslationCache hc indicator blob) := by
  unfold precheckTranslationCache
  refine ends_bind ends_get fun vm => ends_ite (ends_ite ?_ (ends_pure _)) (ends_pure _)
  exact ends_bind (ends_modifyHart hF.flush) fun _ => ends_pure _

include hI hF hE hfetch

theorem ends_prefetchOneInstruction (hc : HostCode) (blob : PrefetchBlob) :
    Ends (OnHart I) E (prefetchOneInstruction hc blob) := by
  unfold prefetchOneInstruction
  refine ends_bind (ends_mmuInstructionRead32 hI hE hfetch _) fun instruction => ?_
  cases Vmm.translate instruction blob.nextInstructionToFetch with
  | none => exact ends_exit hE
  | some e =>
      unfold emit
      refine ends_bind (ends_precheckTranslationCache hF hc _ _) fun (proceed, blob) => ?_
      refine ends_ite ?_ (ends_pure _)
      refine ends_bind (ends_commitTranslation hF hE hc e _) fun _ => ?_
      exact ends_ite (ends_pure _) (ends_pure _)

theorem ends_prefetchLoop (hc : HostCode) (rounds : Nat) (blob : PrefetchBlob) :
    Ends (OnHart I) E (prefetchLoop hc rounds blob) := by
  induction rounds generalizing blob with
  | zero => exact ends_pure _
  | succ rounds ih =>
      unfold prefetchLoop
      refine ends_bind ends_get fun vm => ends_ite (ends_pure _) ?_
      refine ends_bind (ends_prefetchOneInstruction hI hF hE hfetch hc blob) fun blob => ?_
      exact ends_ite (ends_pure _) (ih blob)

theorem ends_prefetchInstructions (hc : HostCode) :
    Ends (OnHart I) E (prefetchInstructions hc) := by
  unfold prefetchInstructions
  refine ends_bind (ends_modifyHart fun h hh => hF.count h _ hh) fun _ => ?_
  refine ends_bind ends_get fun vm => ?_
  refine ends_bind (ends_prefetchLoop hI hF hE hfetch hc _ _) fun _ => ends_bind ends_get fun _ => ?_
  exact ends_ite (ends_modifyHart fun h hh => hF.jumper hc h hh) (ends_pure _)

end Prefetch

/-! ## The control state -/

/-- The part of the hart that decides about traps, interrupts and CSR reads. -/
structure SameControl (h h' : Hart) : Prop where
  privilegeLevel : h'.privilegeLevel = h.privilegeLevel
  status : h'.status = h.status
  csrBlob : h'.csrBlob = h.csrBlob
  idelegation : h'.idelegation = h.idelegation
  ienable : h'.ienable = h.ienable
  ipending : h'.ipending = h.ipending

/-- The traps the vmm takes: an exception where delegation sends it, or a deliverable interrupt. -/
inductive Takes (h : Hart) : BitVec 2 → Word → Prop
  | exception (cause : Nat) (lt : cause < 16) :
      Takes h (h.exceptionTargetPrivilegeLevel cause) (BitVec.ofNat 32 cause)
  | interrupt (vector : Nat) (mem : vector ∈ deliveryOrder)
      (deliverable : h.isInterruptDeliverable vector = true) :
      Takes h (h.interruptTargetPrivilegeLevel vector) (0x80000000#32 ||| BitVec.ofNat 32 vector)

/-- A predicate of the control state that survives each of its changes. -/
structure ControlInvariant (I : Hart → Prop) : Prop where
  same : ∀ {h h'}, I h → SameControl h h' → I h'
  refresh : ∀ (h : Hart) ipending,
    ipending &&& ~~~deviceBits = h.ipending &&& ~~~deviceBits → I h →
    I { h with ipending := ipending }
  csrWrite : ∀ {address : CsrAddress} {csr : CsrEntry} {f : Word → Vm → Vm} (vm : Vm) (value : Word),
    csrEntryAt address = some csr → csr.write = some f → value &&& csr.wpriMask = value →
    I vm.hart → I (f value vm).hart
  mret : ∀ h : Hart, h.privilegeLevel = PRIVILEGE_LEVEL_MACHINE →
    h.status.mpp = PRIVILEGE_LEVEL_USER ∨ h.status.mpp = PRIVILEGE_LEVEL_SUPERVISOR ∨
      h.status.mpp = PRIVILEGE_LEVEL_MACHINE → I h → I h.adjustMstatusUponMret
  sret : ∀ h : Hart, h.privilegeLevel = PRIVILEGE_LEVEL_SUPERVISOR → I h →
    I h.adjustMstatusUponSret
  trap : ∀ (h : Hart) level cause tval, Takes h level cause → I h →
    I (if level = PRIVILEGE_LEVEL_MACHINE then h.setupMmodeTrap cause tval
      else h.setupSmodeTrap cause tval)

theorem sameControl_flush (h : Hart) : SameControl h h.flushTranslationCache :=
  ⟨rfl, rfl, rfl, rfl, rfl, rfl⟩

theorem sameControl_flushOnChange (h : Hart) (tag : Word) :
    SameControl h (h.flushTranslationCacheOnAddressSpaceChange tag) := by
  unfold Hart.flushTranslationCacheOnAddressSpaceChange
  split
  · exact sameControl_flush h
  · exact ⟨rfl, rfl, rfl, rfl, rfl, rfl⟩

theorem sameControl_committed {hc : HostCode} {e : Emitted} {address : Word} {h h' : Hart}
    (hcommit : Committed hc e address h h') : SameControl h h' := by
  obtain ⟨added, item, hadd, -, rfl⟩ := hcommit
  obtain ⟨-, -, rfl⟩ := addTranslationItem_eq hadd
  rw [writeParams_frame]
  exact ⟨rfl, rfl, rfl, rfl, rfl, rfl⟩

section Invariant

variable {I : Hart → Prop}

theorem ControlInvariant.closed (hI : ControlInvariant I) : Closed I where
  setReg _ _ _ hh := hI.same hh ⟨rfl, rfl, rfl, rfl, rfl, rfl⟩
  setPc _ _ hh := hI.same hh ⟨rfl, rfl, rfl, rfl, rfl, rfl⟩
  install _ side _ _ _ hh := by
    cases side with
    | itlb => exact hI.same hh ⟨rfl, rfl, rfl, rfl, rfl, rfl⟩
    | dtlb => exact hI.same hh ⟨rfl, rfl, rfl, rfl, rfl, rfl⟩

theorem ControlInvariant.privilegedClosed (hI : ControlInvariant I) : PrivilegedClosed I where
  refresh := hI.refresh
  setTsc _ _ hh := hI.same hh ⟨rfl, rfl, rfl, rfl, rfl, rfl⟩
  csrWrite := hI.csrWrite
  returnFromMmode h hlevel hmpp hh := by
    refine hI.same ?_ (sameControl_flushOnChange h.adjustMstatusUponMret.adjustPcUponMret _)
    exact hI.same (hI.mret h hlevel hmpp hh) ⟨rfl, rfl, rfl, rfl, rfl, rfl⟩
  returnFromSmode h hlevel hh := by
    refine hI.same ?_ (sameControl_flushOnChange h.adjustMstatusUponSret.adjustPcUponSret _)
    exact hI.same (hI.sret h hlevel hh) ⟨rfl, rfl, rfl, rfl, rfl, rfl⟩
  flush h hh := hI.same hh (sameControl_flush h)
  sfenceVma _ hh := hI.same hh ⟨rfl, rfl, rfl, rfl, rfl, rfl⟩

theorem ControlInvariant.prefetchClosed (hI : ControlInvariant I) : PrefetchClosed I where
  commit hcommit hh := hI.same hh (sameControl_committed hcommit)
  count _ _ hh := hI.same hh ⟨rfl, rfl, rfl, rfl, rfl, rfl⟩
  jumper _ _ hh := hI.same hh ⟨rfl, rfl, rfl, rfl, rfl, rfl⟩
  flush h hh := hI.same hh (sameControl_flush h)

theorem ControlInvariant.takeTrap (hI : ControlInvariant I) {h : Hart} {level : BitVec 2}
    {cause : Word} (tval : Word) (htakes : Takes h level cause) (hh : I h) :
    I (h.takeTrap level cause tval) :=
  hI.same (hI.trap h level cause tval htakes hh) (sameControl_flushOnChange _ _)

/-- An abnormal outcome: the invariant still holds, and a trap was taken from it. -/
def Outcome (I : Hart → Prop) (e : Abort) (t : Vm) : Prop :=
  I t.hart ∧ (e = .trap → ∃ (s : Vm) (level : BitVec 2) (cause tval : Word),
    I s.hart ∧ Takes s.hart level cause ∧
      t = { s with hart := s.hart.takeTrap level cause tval })

theorem ControlInvariant.leaves (hI : ControlInvariant I) : Leaves I Takes (Outcome I) where
  stop _ _ hne hs := ⟨hs, fun he => absurd he hne⟩
  trap s level cause tval htakes hs :=
    ⟨hI.takeTrap tval htakes hs, fun _ => ⟨s, level, cause, tval, hs, htakes, rfl⟩⟩

end Invariant

/-! ## Runs -/

/-- What a run interleaves. -/
inductive Operation
  /-- A translated instruction, with any parameter words and host registers. -/
  | block (indicator : Indicator) (param : Nat → Word) (c : Cpu)
  | prefetch
  /-- Device polling and interrupt delivery between translation units. -/
  | pump

def Operation.run (hc : HostCode) : Operation → VmM Unit
  | .block indicator param c => do
      let _ ← runBlock hc indicator param c
  | .prefetch => prefetchInstructions hc
  | .pump => pumpDevicesAndDeliverInterrupts

theorem ends_operation {I : Hart → Prop} (hI : ControlInvariant I) (hc : HostCode)
    (op : Operation) : Ends (OnHart I) (Outcome I) (op.run hc) := by
  have hraise : ∀ cause, cause < 16 → MayRaise I Takes cause := fun cause hlt _ _ =>
    .exception cause hlt
  cases op with
  | block indicator param c =>
      exact ends_bind (ends_runBlock hI.closed hI.privilegedClosed hI.leaves
        (fun cause hlt _ => hraise cause hlt) hc indicator param c) fun _ => ends_pure _
  | prefetch =>
      exact ends_prefetchInstructions hI.closed.install hI.prefetchClosed hI.leaves (hraise _ (by decide)) hc
  | pump =>
      exact ends_pumpDevicesAndDeliverInterrupts hI.refresh hI.leaves
        fun _ vector hmem hdeliverable _ => .interrupt vector hmem hdeliverable

/-- The states reached from power-on, whatever is in memory and however each operation ends. -/
inductive Reachable (hc : HostCode) : Vm → Prop
  | start {vm : Vm} (reset : SameControl initialHart vm.hart) : Reachable hc vm
  | step {vm : Vm} (op : Operation) (reached : Reachable hc vm) :
      Reachable hc (finalState (op.run hc vm))

theorem Reachable.foldl {hc : HostCode} {vm : Vm} (h : Reachable hc vm) (ops : List Operation) :
    Reachable hc (ops.foldl (fun vm op => finalState (op.run hc vm)) vm) := by
  induction ops generalizing vm with
  | nil => exact h
  | cons op ops ih => exact ih (.step op h)

theorem Reachable.invariant {I : Hart → Prop} (hI : ControlInvariant I) (hinit : I initialHart)
    {hc : HostCode} {vm : Vm} (h : Reachable hc vm) : I vm.hart := by
  induction h with
  | start reset => exact hI.same hinit reset
  | @step vm op _ ih =>
      have hend := ends_operation hI hc op vm ih
      unfold Wp at hend
      cases hrun : op.run hc vm with
      | ok a t =>
          rw [hrun] at hend
          exact hend
      | error e t =>
          rw [hrun] at hend
          exact hend.1

end Zelda.Proofs.Runs
