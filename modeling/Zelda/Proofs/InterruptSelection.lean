import Zelda.Proofs.PlicRouting
import Zelda.Proofs.TrapNesting
/-!
# Which interrupt is taken

The pump refreshes the device bits and takes the first deliverable vector of a
fixed order.  What is pending after the refresh is a function of the state
before it, so is the vector taken.
-/

namespace Zelda.Proofs.InterruptSelection

open Zelda.Vmm
open Zelda.Lib.Effect
open Zelda.Proofs.Frames
open Zelda.Proofs.Callees
open Zelda.Proofs.Runs

/-! ## Delegation -/

/-- The interrupts a guest can delegate: the three supervisor ones. -/
def delegable : Word := 0x222

/-- Machine-level sources are not delegated. -/
def DelegatesSupervisor (h : Hart) : Prop :=
  h.idelegation &&& ~~~delegable = 0

theorem idelegation_csrWrite {address : CsrAddress} {csr : CsrEntry} {f : Word → Vm → Vm} (vm : Vm)
    (value : Word) (hcsr : csrEntryAt address = some csr) (hf : csr.write = some f) :
    (f value vm).hart.idelegation = vm.hart.idelegation ∨
      csr = midelegCsrEntry ∧ (f value vm).hart.idelegation = value := by
  cases csrEntryAt_kind hcsr with
  | mideleg =>
      obtain rfl := Option.some.inj hf
      exact .inr ⟨rfl, rfl⟩
  | readOnly write read =>
      obtain rfl := write f hf
      exact .inl rfl
  | blob | mie | mip | mstatus | satp | sie | sip | sstatus =>
      obtain rfl := Option.some.inj hf
      exact .inl rfl

theorem controlInvariant_delegatesSupervisor : ControlInvariant DelegatesSupervisor where
  same hh hsame := by
    unfold DelegatesSupervisor
    rw [hsame.idelegation]
    exact hh
  refresh _ _ _ hh := hh
  csrWrite vm value hcsr hf hmask hh := by
    unfold DelegatesSupervisor
    rcases idelegation_csrWrite vm value hcsr hf with hkeep | ⟨rfl, hset⟩
    · rw [hkeep]
      exact hh
    · have hvalue : value &&& delegable = value := hmask
      rw [hset, ← hvalue, BitVec.and_assoc, BitVec.and_not_self]
      exact BitVec.and_zero
  mret _ _ _ hh := hh
  sret _ _ hh := hh
  trap h level cause tval _ hh := by
    split
    · exact hh
    · exact hh

theorem reachable_delegatesSupervisor {hc : HostCode} {vm : Vm} (h : Reachable hc vm) :
    DelegatesSupervisor vm.hart :=
  h.invariant controlInvariant_delegatesSupervisor rfl

/-- A source outside the mask targets machine level. -/
theorem target_of_not_delegable {h : Hart} (hh : DelegatesSupervisor h) {vector : Nat}
    (hvector : delegable &&& (1#32 <<< vector) = 0) :
    h.interruptTargetPrivilegeLevel vector = PRIVILEGE_LEVEL_MACHINE := by
  unfold Hart.interruptTargetPrivilegeLevel
  apply if_neg
  rw [not_not]
  apply BitVec.eq_of_getLsbD_eq
  intro i hi
  have hmask := congrArg (fun w : Word => w.getLsbD i) hh
  have hbit := congrArg (fun w : Word => w.getLsbD i) hvector
  have hzero : BitVec.getLsbD (0 : Word) i = false := BitVec.getLsbD_zero
  simp only [BitVec.getLsbD_and, BitVec.getLsbD_not, hi, decide_true, Bool.true_and, hzero] at hmask hbit ⊢
  revert hmask hbit
  cases h.idelegation.getLsbD i <;> cases delegable.getLsbD i <;>
    cases (1#32 <<< vector).getLsbD i <;> simp

/-! ## The refresh -/

/-- The pump up to the delivery loop. -/
def refreshed : VmM Unit := do
  modify fun vm => { vm with clint := vm.clint.advanceTime vm.ticksPerTranslationUnit }
  refreshDeviceInterrupts

theorem pump_eq :
    pumpDevicesAndDeliverInterrupts = (do refreshed; deliverFirst deliveryOrder) := by
  unfold pumpDevicesAndDeliverInterrupts refreshed
  rw [bind_assoc]

/-- The console after the poll this call is due to make; `none` when the operator quits. -/
def polledUart (vm : Vm) : Option Uart :=
  if vm.pollCountdown = 0 ∧ vm.uart.consoleAttached = true then
    match vm.hostInput with
    | [] => some vm.uart
    | waiting :: _ => vm.uart.receive (waiting.take 64)
  else
    some vm.uart

/-- The pending bits that devices in this state drive, with those of software. -/
def drivenPending (vm : Vm) (uart : Uart) : Word :=
  let id := vm.hart.hartId
  let mtime := vm.clint.mtime + vm.ticksPerTranslationUnit
  let plic := vm.plic.setPending PLIC_IRQ_UART0 uart.interruptPending
  let ipending := assignBit vm.hart.ipending 7 (vm.clint.mtimecmp id ≤ mtime)
  let ipending := assignBit ipending 3 (vm.clint.msip id != 0)
  let ipending := assignBit ipending 11 (plic.bestSource (id * 2) != 0)
  assignBit ipending 9 (plic.bestSource (id * 2 + 1) != 0)

/-- A refresh changes nothing of the hart but its pending bits. -/
theorem refreshed_spec (vm : Vm) :
    Wp refreshed
      (fun _ r => ∃ uart, polledUart vm = some uart ∧
        r.hart = { vm.hart with ipending := drivenPending vm uart })
      (fun e _ => e = .exit ∧ polledUart vm = none) vm := by
  unfold refreshed refreshDeviceInterrupts polledUart
  simp only [wp_bind, wp_modify, wp_get]
  by_cases hpoll : vm.pollCountdown = 0
  · rw [if_pos hpoll, wp_bind, wp_set, wp_bind]
    unfold uartPollInput
    rw [wp_bind, wp_get]
    by_cases hconsole : vm.uart.consoleAttached = true
    · rw [if_neg (not_not.mpr hconsole), if_pos ⟨hpoll, hconsole⟩]
      simp only
      cases vm.hostInput with
      | nil => exact ⟨vm.uart, rfl, rfl⟩
      | cons waiting later =>
          simp only
          cases vm.uart.receive (waiting.take 64) with
          | some uart => exact ⟨uart, rfl, rfl⟩
          | none => exact ⟨rfl, rfl⟩
    · rw [if_pos hconsole, if_neg fun h => hconsole h.2]
      exact ⟨vm.uart, rfl, rfl⟩
  · rw [if_neg hpoll, if_neg fun h => hpoll h.1]
    exact ⟨vm.uart, rfl, rfl⟩

/-! ## The delivery loop -/

/-- The machine after an interrupt has been taken. -/
def interrupted (s : Vm) (vector : Nat) : Vm :=
  TrapNesting.trapped s (s.hart.interruptTargetPrivilegeLevel vector)
    (0x80000000#32 ||| BitVec.ofNat 32 vector) 0

theorem interruptTarget_cases (h : Hart) (vector : Nat) :
    h.interruptTargetPrivilegeLevel vector = PRIVILEGE_LEVEL_SUPERVISOR ∨
      h.interruptTargetPrivilegeLevel vector = PRIVILEGE_LEVEL_MACHINE := by
  unfold Hart.interruptTargetPrivilegeLevel
  split
  · exact .inl rfl
  · exact .inr rfl

/-- The loop takes the first deliverable vector of its list. -/
theorem deliverFirst_apply (vectors : List Nat) (s : Vm) :
    deliverFirst vectors s =
      match vectors.find? s.hart.isInterruptDeliverable with
      | none => .ok () s
      | some vector => .error .trap (interrupted s vector) := by
  induction vectors with
  | nil => rfl
  | cons vector rest ih =>
      unfold deliverFirst
      rw [bind_apply_ok (get_apply s)]
      by_cases hdeliverable : s.hart.isInterruptDeliverable vector = true
      · rw [if_pos hdeliverable, List.find?_cons_of_pos hdeliverable]
        unfold deliverInterrupt
        rw [bind_apply_ok (get_apply s)]
        exact raiseTrapRaw_apply _ _ s (interruptTarget_cases s.hart vector)
      · rw [if_neg hdeliverable, List.find?_cons_of_neg hdeliverable]
        exact ih

theorem pump_of_refreshed {vm r : Vm} (h : refreshed vm = .ok () r) :
    pumpDevicesAndDeliverInterrupts vm =
      match deliveryOrder.find? r.hart.isInterruptDeliverable with
      | none => .ok () r
      | some vector => .error .trap (interrupted r vector) := by
  rw [pump_eq, bind_apply_ok h, deliverFirst_apply]

/-! ## Selection -/

/-- A vector's place in the specification's order within a level. -/
def rank (vector : Nat) : Nat :=
  deliveryOrder.idxOf vector

/-- The vector the specification asks for: highest target level, then lowest rank. -/
structure Chosen (h : Hart) (vector : Nat) : Prop where
  mem : vector ∈ deliveryOrder
  deliverable : h.isInterruptDeliverable vector = true
  highest : ∀ other ∈ deliveryOrder, h.isInterruptDeliverable other = true →
    h.interruptTargetPrivilegeLevel other ≤ h.interruptTargetPrivilegeLevel vector
  first : ∀ other ∈ deliveryOrder, h.isInterruptDeliverable other = true →
    h.interruptTargetPrivilegeLevel other = h.interruptTargetPrivilegeLevel vector →
    rank vector ≤ rank other

/-- One call takes the chosen vector, and nothing if none is deliverable. -/
def Selects (vm : Vm) : Prop :=
  ∀ r, refreshed vm = .ok () r →
    (pumpDevicesAndDeliverInterrupts vm = .ok () r ∧
      ∀ vector ∈ deliveryOrder, r.hart.isInterruptDeliverable vector = false) ∨
    ∃ vector, Chosen r.hart vector ∧
      pumpDevicesAndDeliverInterrupts vm = .error .trap (interrupted r vector)

/-- Machine-level sources target machine level. -/
def MachineSourcesStay (vm : Vm) : Prop :=
  ∀ vector ∈ [INTERRUPT_MACHINE_EXTERNAL, INTERRUPT_MACHINE_SOFTWARE, INTERRUPT_MACHINE_TIMER],
    vm.hart.interruptTargetPrivilegeLevel vector = PRIVILEGE_LEVEL_MACHINE

/-- Machine level with `mie` clear takes nothing. -/
def MachineMasked (vm : Vm) : Prop :=
  vm.hart.privilegeLevel = PRIVILEGE_LEVEL_MACHINE → vm.hart.status.mie = false →
    ∀ t, pumpDevicesAndDeliverInterrupts vm ≠ .error .trap t

/-- The whole of what the privileged specification asks of one call. -/
def SelectionFollowsSpec (vm : Vm) : Prop :=
  Selects vm ∧ MachineSourcesStay vm ∧ MachineMasked vm

/-- A vector that the refreshed hart could take, told from the state before the refresh. -/
def ready (vm : Vm) (uart : Uart) (vector : Nat) : Bool :=
  { vm.hart with ipending := drivenPending vm uart }.isInterruptDeliverable vector

/--
The first ready vector is delegated to the supervisor while another ready one
is not: the scan order and the target levels disagree.
-/
def Outranked (vm : Vm) : Prop :=
  ∃ uart, polledUart vm = some uart ∧
    (∃ vector, deliveryOrder.find? (ready vm uart) = some vector ∧
      vm.hart.interruptTargetPrivilegeLevel vector = PRIVILEGE_LEVEL_SUPERVISOR) ∧
    ∃ other ∈ deliveryOrder, ready vm uart other = true ∧
      vm.hart.interruptTargetPrivilegeLevel other = PRIVILEGE_LEVEL_MACHINE

theorem idxOf_find_le {p : Nat → Bool} {v w : Nat} {l : List Nat} (h : l.find? p = some v)
    (hw : w ∈ l) (hp : p w = true) : l.idxOf v ≤ l.idxOf w := by
  induction l with
  | nil => cases hw
  | cons a l ih =>
      by_cases ha : p a = true
      · rw [List.find?_cons_of_pos ha] at h
        obtain rfl := Option.some.inj h
        rw [List.idxOf_cons_self]
        exact Nat.zero_le _
      · rw [List.find?_cons_of_neg ha] at h
        have hav : a ≠ v := fun hav => ha (hav ▸ List.find?_some h)
        have haw : a ≠ w := fun haw => ha (haw ▸ hp)
        rw [List.idxOf_cons_ne _ hav, List.idxOf_cons_ne _ haw]
        exact Nat.succ_le_succ (ih h ((List.mem_cons.mp hw).resolve_left haw.symm))

/-- The refreshed hart, from a run of the refresh. -/
theorem hart_of_refreshed {vm r : Vm} (h : refreshed vm = .ok () r) :
    ∃ uart, polledUart vm = some uart ∧
      r.hart = { vm.hart with ipending := drivenPending vm uart } := by
  have hspec := refreshed_spec vm
  rwa [wp_of_ok h] at hspec

theorem refreshed_of_polledUart {vm : Vm} {uart : Uart} (h : polledUart vm = some uart) :
    ∃ r, refreshed vm = .ok () r ∧
      r.hart = { vm.hart with ipending := drivenPending vm uart } := by
  have hspec := refreshed_spec vm
  cases hrun : refreshed vm with
  | ok a r =>
      rw [wp_of_ok hrun] at hspec
      obtain ⟨uart', huart, hhart⟩ := hspec
      rw [h] at huart
      cases huart
      exact ⟨r, rfl, hhart⟩
  | error e r =>
      rw [wp_of_error hrun, h] at hspec
      cases hspec.2

theorem privilegeLevel_interrupted (s : Vm) (vector : Nat) :
    (interrupted s vector).hart.privilegeLevel = s.hart.interruptTargetPrivilegeLevel vector := by
  unfold interrupted TrapNesting.trapped
  rcases interruptTarget_cases s.hart vector with hlevel | hlevel
  · rw [hlevel]
    exact (TrapNesting.takeTrap_supervisor s.hart _ _).privilegeLevel
  · rw [hlevel]
    exact (TrapNesting.takeTrap_machine s.hart _ _).privilegeLevel

theorem selects_of_not_outranked {vm : Vm} (h : ¬Outranked vm) : Selects vm := by
  intro r hr
  obtain ⟨uart, huart, hhart⟩ := hart_of_refreshed hr
  rw [pump_of_refreshed hr]
  cases hfind : deliveryOrder.find? r.hart.isInterruptDeliverable with
  | none =>
      left
      refine ⟨rfl, fun vector hmem => ?_⟩
      simpa using List.find?_eq_none.mp hfind vector hmem
  | some vector =>
      right
      have hdeliverable := List.find?_some hfind
      refine ⟨vector, ⟨List.mem_of_find?_eq_some hfind, hdeliverable, ?_, ?_⟩, rfl⟩
      · intro other hmem hother
        rcases interruptTarget_cases r.hart vector with hlevel | hlevel
        · rcases interruptTarget_cases r.hart other with hlevel' | hlevel'
          · rw [hlevel, hlevel']
            exact Std.le_refl _
          · rw [hhart] at hfind hlevel hother hlevel'
            exact absurd ⟨uart, huart, ⟨vector, hfind, hlevel⟩, other, hmem, hother, hlevel'⟩ h
        · rw [hlevel]
          exact TrapNesting.le_machine _
      · intro other hmem hother _
        exact idxOf_find_le hfind hmem hother

theorem not_outranked_of_selects {vm : Vm} (h : Selects vm) : ¬Outranked vm := by
  rintro ⟨uart, huart, ⟨vector, hfind, hlevel⟩, other, hmem, hready, hlevel'⟩
  obtain ⟨r, hr, hhart⟩ := refreshed_of_polledUart huart
  have hfind' : deliveryOrder.find? r.hart.isInterruptDeliverable = some vector := by
    rw [hhart]
    exact hfind
  have hpump := pump_of_refreshed hr
  rw [hfind'] at hpump
  rcases h r hr with ⟨hok, -⟩ | ⟨chosen, hchosen, htrap⟩
  · rw [hpump] at hok
    cases hok
  · have hsame : interrupted r vector = interrupted r chosen := by
      rw [hpump] at htrap
      exact (EStateM.Result.error.inj htrap).2
    have hhighest := hchosen.highest other hmem (by rw [hhart]; exact hready)
    have hdown : r.hart.interruptTargetPrivilegeLevel chosen = PRIVILEGE_LEVEL_SUPERVISOR := by
      rw [← privilegeLevel_interrupted, ← hsame, privilegeLevel_interrupted, hhart]
      exact hlevel
    have hup : r.hart.interruptTargetPrivilegeLevel other = PRIVILEGE_LEVEL_MACHINE := by
      rw [hhart]
      exact hlevel'
    rw [hdown, hup] at hhighest
    exact absurd hhighest (by decide)

theorem machineSourcesStay {vm : Vm} (h : DelegatesSupervisor vm.hart) : MachineSourcesStay vm := by
  intro vector hmem
  apply target_of_not_delegable h
  revert vector
  decide

theorem not_deliverable_masked {h : Hart} (hlevel : h.privilegeLevel = PRIVILEGE_LEVEL_MACHINE)
    (hmie : h.status.mie = false) (vector : Nat) : h.isInterruptDeliverable vector = false := by
  unfold Hart.isInterruptDeliverable
  simp only [hlevel, hmie]
  split
  · rfl
  · rcases interruptTarget_cases h vector with htarget | htarget
    · rw [htarget]
      rfl
    · rw [htarget]
      rfl

theorem machineMasked (vm : Vm) : MachineMasked vm := by
  intro hlevel hmie t htrap
  have hspec := refreshed_spec vm
  cases hrun : refreshed vm with
  | ok a r =>
      obtain ⟨uart, -, hhart⟩ := hart_of_refreshed hrun
      have hnone : deliveryOrder.find? r.hart.isInterruptDeliverable = none := by
        apply List.find?_eq_none.mpr
        intro vector _
        have hlevel' : r.hart.privilegeLevel = PRIVILEGE_LEVEL_MACHINE := by
          rw [hhart]
          exact hlevel
        have hmie' : r.hart.status.mie = false := by
          rw [hhart]
          exact hmie
        rw [not_deliverable_masked hlevel' hmie']
        decide
      rw [pump_of_refreshed hrun, hnone] at htrap
      cases htrap
  | error e r =>
      rw [wp_of_error hrun] at hspec
      obtain ⟨rfl, -⟩ := hspec
      rw [pump_eq, bind_apply_error hrun] at htrap
      cases htrap

/-- The selection is the specification's exactly when no delegated vector goes first wrongly. -/
theorem selection_follows_spec_iff {hc : HostCode} {vm : Vm} (h : Reachable hc vm) :
    SelectionFollowsSpec vm ↔ ¬Outranked vm := by
  constructor
  · exact fun hspec => not_outranked_of_selects hspec.1
  · intro hnot
    exact ⟨selects_of_not_outranked hnot, machineSourcesStay (reachable_delegatesSupervisor h),
      machineMasked vm⟩

/-! ## Partial delegation -/

/--
Machine code that enables and raises the supervisor's software and timer
interrupts, runs the given instruction on `mideleg`, and returns to user level.
-/
def delegationOps (delegate : Word) : List Operation :=
  let block (indicator : Indicator) (params : List Word) : Operation :=
    .block indicator (fun i => params.getD i 0) (entryCpu evenHostCode)
  [ block .addi [0x22, 0, 1], block .genericCsr [0x30409073], block .genericCsr [0x34409073],
    block .genericCsr [delegate], block .mret [] ]

def delegationVm (delegate : Word) : Vm :=
  (delegationOps delegate).foldl (fun vm op => finalState (op.run evenHostCode vm))
    (virtualMachineInit (fun _ => 0) fun _ => 0)

theorem reachable_delegationVm (delegate : Word) :
    Reachable evenHostCode (delegationVm delegate) :=
  Reachable.foldl (.start ⟨rfl, rfl, rfl, rfl, rfl, rfl⟩) _

theorem polledUart_of_no_input {vm : Vm} (h : vm.hostInput = []) :
    polledUart vm = some vm.uart := by
  unfold polledUart
  rw [h]
  split <;> rfl

/-- `csrrw mideleg, x1` delegates both interrupts. -/
theorem selection_follows_spec_delegated :
    (delegationVm 0x30309073).hart.idelegation = 0x22 ∧
      SelectionFollowsSpec (delegationVm 0x30309073) := by
  have hinput : (delegationVm 0x30309073).hostInput = [] := by decide +kernel
  have hnone : ∀ other ∈ deliveryOrder,
      ready (delegationVm 0x30309073) (delegationVm 0x30309073).uart other = true →
      (delegationVm 0x30309073).hart.interruptTargetPrivilegeLevel other ≠
        PRIVILEGE_LEVEL_MACHINE := by
    decide +kernel
  refine ⟨by decide +kernel,
    (selection_follows_spec_iff (reachable_delegationVm 0x30309073)).mpr ?_⟩
  rintro ⟨uart, huart, -, other, hmem, hready, hlevel⟩
  have hsame := Option.some.inj (huart.symm.trans (polledUart_of_no_input hinput))
  rw [hsame] at hready
  exact hnone other hmem hready hlevel

/-- After `csrrwi mideleg, 2` the delegated software interrupt is taken before the timer's. -/
theorem delegated_software_goes_first :
    Reachable evenHostCode (delegationVm 0x30315073) ∧
      ¬SelectionFollowsSpec (delegationVm 0x30315073) := by
  have hinput : (delegationVm 0x30315073).hostInput = [] := by decide +kernel
  have hfirst : deliveryOrder.find? (ready (delegationVm 0x30315073)
      (delegationVm 0x30315073).uart) = some INTERRUPT_SUPERVISOR_SOFTWARE := by decide +kernel
  refine ⟨reachable_delegationVm 0x30315073, fun hspec => ?_⟩
  apply not_outranked_of_selects hspec.1
  refine ⟨_, polledUart_of_no_input hinput, ⟨INTERRUPT_SUPERVISOR_SOFTWARE, hfirst, ?_⟩,
    INTERRUPT_SUPERVISOR_TIMER, by decide, ?_, ?_⟩
  · decide +kernel
  · decide +kernel
  · decide +kernel
end Zelda.Proofs.InterruptSelection
