import Zelda.Proofs.InterruptSelection
import Zelda.Proofs.SbiCalls
/-!
# Timer ticks

The supervisor's timer interrupt is made by the firmware out of the machine's.
A request arms the machine timer, the interrupt it causes disarms it and sets
the supervisor's pending bit, and the next request takes that bit back: in
every run exactly one of the two stands for the tick.
-/

namespace Zelda.Proofs.TimerTicks

open Zelda.Vmm
open Zelda.Firmware
open Zelda.Lib.Effect
open Zelda.Proofs.Frames
open Zelda.Proofs.Runs
open Zelda.Proofs.CsrAccess
open Zelda.Proofs.CsrViews
open Zelda.Proofs.InterruptSelection
open Zelda.Proofs.SbiCalls

/-! ## Runs -/

/-- `mie.MTIE`. -/
def mtie (vm : Vm) : Bool := vm.hart.ienable.getLsbD 7

/-- `mip.STIP`. -/
def stip (vm : Vm) : Bool := vm.hart.ipending.getLsbD 5

/-- A run so far: the machine, and what has happened since the last timer request. -/
structure Timeline where
  vm : Vm
  /-- The deadline requested last. -/
  deadline : Option DWord
  /-- Whether the clock has been at or past it since. -/
  reached : Bool
  /-- How many machine timer interrupts have been taken since. -/
  taken : Nat

namespace Timeline

/-- Whether the clock is at or past the deadline. -/
def due (l : Timeline) (vm : Vm) : Bool :=
  l.deadline.any fun next => next ≤ vm.clint.mtime

/-- The run goes on to `vm`. -/
def observe (l : Timeline) (vm : Vm) : Timeline :=
  { l with vm := vm, reached := l.reached || l.due vm }

/-- The run goes on to `vm` through an interrupt with the given cause. -/
def interrupt (l : Timeline) (cause : Word) (vm : Vm) : Timeline :=
  let l := l.observe vm
  if cause = 0x80000007 then { l with taken := l.taken + 1 } else l

/-- The run goes on to `vm` through an SBI call. -/
def call (l : Timeline) (frame : TrapFrame) (vm : Vm) : Timeline :=
  match requests frame with
  | some next =>
      { vm := vm, deadline := some next, reached := next ≤ vm.clint.mtime, taken := 0 }
  | none => l.observe vm

end Timeline

/-- A trap handled by the firmware: the frame is saved, edited and restored, then `mret`. -/
def firmwareRound : VmM Unit := do
  let vm ← get
  let frame ← fwTrapHandler vm.hart.registers
  modifyHart fun h => { h with registers := frame }
  mretCallback

/--
Code that touches no machine CSR and no CLINT register, and none of the
registers that the other steps are about.
-/
structure Quiet (s t : Vm) : Prop where
  ienable : t.hart.ienable = s.hart.ienable
  ipending : t.hart.ipending = s.hart.ipending
  clint : t.clint = s.clint
  pmrOps : t.pmrOps = s.pmrOps
  hartId : t.hart.hartId = s.hart.hartId
  delegates : DelegatesSupervisor s.hart → DelegatesSupervisor t.hart

/-- What a run interleaves, in any order. -/
inductive Step (l : Timeline) : Timeline → Prop
  /-- An `ecall` that the firmware answers. -/
  | sbi {t u : Vm} (trap : ecallCallback l.vm = .error .trap t)
      (level : t.hart.privilegeLevel = PRIVILEGE_LEVEL_MACHINE)
      (names : NamesHarts t.hart.registers t) (returns : firmwareRound t = .ok () u) :
      Step l (l.call t.hart.registers u)
  /-- A clock tick and a device refresh after which nothing is delivered. -/
  | pump {t : Vm} (runs : pumpDevicesAndDeliverInterrupts l.vm = .ok () t) : Step l (l.observe t)
  /-- An interrupt the supervisor takes itself. -/
  | supervisorInterrupt {t : Vm} (trap : pumpDevicesAndDeliverInterrupts l.vm = .error .trap t)
      (level : t.hart.privilegeLevel = PRIVILEGE_LEVEL_SUPERVISOR) :
      Step l (l.interrupt (trapCause t.hart) t)
  /-- An interrupt the firmware takes and handles. -/
  | machineInterrupt {t u : Vm} (trap : pumpDevicesAndDeliverInterrupts l.vm = .error .trap t)
      (level : t.hart.privilegeLevel = PRIVILEGE_LEVEL_MACHINE)
      (returns : firmwareRound t = .ok () u) : Step l (l.interrupt (trapCause t.hart) u)
  | wfi {t : Vm} (runs : wfiCallback l.vm = .ok () t) : Step l (l.observe t)
  | advance (ticks : DWord) :
      Step l (l.observe { l.vm with clint := l.vm.clint.advanceTime ticks })
  | refresh {t : Vm} (runs : refreshDeviceInterrupts l.vm = .ok () t) : Step l (l.observe t)
  /-- A CSR instruction on `sie`, `sip` or `sstatus`. -/
  | csr {t : Vm} (instruction : Word) (names : csrAddress instruction ∈ supervisorViews)
      (runs : riscvGenericCsrCallback instruction l.vm = .ok () t) : Step l (l.observe t)
  | quiet {t : Vm} (quiet : Quiet l.vm t) : Step l (l.observe t)

/-- The runs that start where `sbi_init` ends, on the firmware's platform. -/
inductive Run (hc : HostCode) : Timeline → Prop
  | start {s t : Vm} (reachable : Reachable hc s) (platform : Platform s) (fwTrapVector : Word)
      (runs : sbiInit fwTrapVector s = .ok () t) :
      Run hc { vm := t, deadline := none, reached := false, taken := 0 }
  | step {l l' : Timeline} (run : Run hc l) (step : Step l l') : Run hc l'

/-! ## What only the firmware changes -/

/-- The timer's registers and the platform are as they were; the clock may have moved. -/
structure Keeps (s t : Vm) : Prop where
  mtie : mtie t = mtie s
  stip : stip t = stip s
  mtimecmp : t.clint.mtimecmp = s.clint.mtimecmp
  base : t.clint.base = s.clint.base
  nrHarts : t.clint.nrHarts = s.clint.nrHarts
  pmrOps : t.pmrOps = s.pmrOps
  hartId : t.hart.hartId = s.hart.hartId
  delegates : DelegatesSupervisor s.hart → DelegatesSupervisor t.hart

namespace Keeps

theorem refl (s : Vm) : Keeps s s :=
  ⟨rfl, rfl, rfl, rfl, rfl, rfl, rfl, id⟩

theorem trans {s t u : Vm} (h : Keeps s t) (h' : Keeps t u) : Keeps s u where
  mtie := h'.mtie.trans h.mtie
  stip := h'.stip.trans h.stip
  mtimecmp := h'.mtimecmp.trans h.mtimecmp
  base := h'.base.trans h.base
  nrHarts := h'.nrHarts.trans h.nrHarts
  pmrOps := h'.pmrOps.trans h.pmrOps
  hartId := h'.hartId.trans h.hartId
  delegates hs := h'.delegates (h.delegates hs)

theorem platform {s t : Vm} (h : Keeps s t) (hp : Platform s) : Platform t where
  pmrOps := h.pmrOps.trans hp.pmrOps
  clintBase := h.base.trans hp.clintBase
  hartId := by
    rw [h.hartId, h.nrHarts]
    exact hp.hartId

end Keeps

theorem Quiet.keeps {s t : Vm} (h : Quiet s t) : Keeps s t where
  mtie := by rw [mtie, mtie, h.ienable]
  stip := by rw [stip, stip, h.ipending]
  mtimecmp := by rw [h.clint]
  base := by rw [h.clint]
  nrHarts := by rw [h.clint]
  pmrOps := h.pmrOps
  hartId := h.hartId
  delegates := h.delegates

theorem keeps_clint {s : Vm} {c : Clint} (hcmp : c.mtimecmp = s.clint.mtimecmp)
    (hbase : c.base = s.clint.base) (hharts : c.nrHarts = s.clint.nrHarts) :
    Keeps s { s with clint := c } :=
  ⟨rfl, rfl, hcmp, hbase, hharts, rfl, rfl, id⟩

theorem skipToNextDeadline_keeps (c : Clint) :
    c.skipToNextDeadline.2.mtimecmp = c.mtimecmp ∧ c.skipToNextDeadline.2.base = c.base ∧
      c.skipToNextDeadline.2.nrHarts = c.nrHarts := by
  unfold Clint.skipToNextDeadline
  simp only
  split
  · exact ⟨rfl, rfl, rfl⟩
  split
  · exact ⟨rfl, rfl, rfl⟩
  · exact ⟨rfl, rfl, rfl⟩

/-! ## Refreshes -/

/-- A device refresh drives pending bits, none of them the supervisor timer's. -/
structure Refreshed (s t : Vm) : Prop where
  keeps : Keeps s t
  clint : t.clint = s.clint
  mtip : t.hart.ipending.getLsbD 7 = decide (s.clint.mtimecmp s.hart.hartId ≤ s.clint.mtime)

theorem keeps_ipending {s : Vm} {ipending : Word}
    (h : ipending.getLsbD 5 = s.hart.ipending.getLsbD 5) :
    Keeps s { s with hart := { s.hart with ipending := ipending } } :=
  ⟨rfl, h, rfl, rfl, rfl, rfl, rfl, id⟩

theorem ends_uartPollInput (s : Vm) :
    Ends (fun t => Keeps s t ∧ t.clint = s.clint) Never uartPollInput := by
  intro t ht
  unfold uartPollInput
  rw [wp_bind, wp_get]
  split
  · exact ht
  · split
    · exact ht
    · simp only
      split
      · exact ⟨ht.1.trans ⟨rfl, rfl, rfl, rfl, rfl, rfl, rfl, id⟩, ht.2⟩
      · exact trivial

/-- The two loops over the interrupt sources leave bit 5 alone and set bit 7 from the clock. -/
theorem refreshed_drive {s t : Vm} (hkeeps : Keeps s t) (hclint : t.clint = s.clint) :
    Wp (do uartRefreshInterrupt; clintRefreshPending; plicRefreshPending)
      (fun _ u => Refreshed s u) Never t := by
  have hfive : ∀ (blob : Word) (a b c d : Bool),
      (assignBit (assignBit (assignBit (assignBit blob 7 a) 3 b) 11 c) 9 d).getLsbD 5 =
        blob.getLsbD 5 := by
    intro blob a b c d
    repeat rw [Callees.getLsbD_assignBit _ _ (by decide), if_neg (by decide)]
  have hseven : ∀ (blob : Word) (a b c d : Bool),
      (assignBit (assignBit (assignBit (assignBit blob 7 a) 3 b) 11 c) 9 d).getLsbD 7 = a := by
    intro blob a b c d
    repeat rw [Callees.getLsbD_assignBit _ _ (by decide), if_neg (by decide)]
    rw [Callees.getLsbD_assignBit _ _ (by decide), if_pos rfl]
  refine ⟨hkeeps.trans ⟨rfl, hfive _ _ _ _ _, rfl, rfl, rfl, rfl, rfl, id⟩, hclint, ?_⟩
  refine (hseven _ _ _ _ _).trans ?_
  show decide (t.clint.mtimecmp t.hart.hartId ≤ t.clint.mtime) = _
  rw [hclint, hkeeps.hartId]

theorem refreshDeviceInterrupts_spec (s : Vm) :
    Wp refreshDeviceInterrupts (fun _ t => Refreshed s t) Never s := by
  have hcount : ∀ n, Keeps s { s with pollCountdown := n } := fun n =>
    ⟨rfl, rfl, rfl, rfl, rfl, rfl, rfl, id⟩
  unfold refreshDeviceInterrupts
  rw [wp_bind, wp_get]
  split
  · rw [wp_bind, wp_set, wp_bind]
    refine wp_mono (ends_uartPollInput s _ ⟨hcount CONSOLE_POLL_INTERVAL, rfl⟩) ?_ fun _ _ h => h
    rintro _ t ⟨hkeeps, hclint⟩
    exact refreshed_drive hkeeps hclint
  · rw [wp_bind, wp_set]
    exact refreshed_drive (hcount _) rfl

/-- Idling refreshes devices and moves the clock. -/
theorem ends_hartIdleLoop (s : Vm) (n : Nat) : Ends (Keeps s) Never (hartIdleLoop n) := by
  induction n with
  | zero => exact ends_pure _
  | succ n ih =>
      intro t ht
      unfold hartIdleLoop
      rw [wp_bind]
      refine wp_mono (ends_uartPollInput t t ⟨Keeps.refl t, rfl⟩) ?_ fun _ _ h => h
      rintro _ u ⟨hu, -⟩
      rw [wp_bind]
      refine wp_mono (refreshDeviceInterrupts_spec u) ?_ fun _ _ h => h
      intro _ v hv
      have hkeeps : Keeps s v := (ht.trans hu).trans hv.keeps
      rw [wp_bind, wp_get]
      split
      · exact hkeeps
      · rw [wp_bind, wp_set]
        obtain ⟨hcmp, hbase, hharts⟩ := skipToNextDeadline_keeps v.clint
        exact ih _ (hkeeps.trans (keeps_clint hcmp hbase hharts))

/-! ## Supervisor CSR instructions -/

theorem keeps_observed {s t : Vm} (h : Observed s t) : Keeps s t := by
  rw [Observed] at h
  rw [h]
  exact ⟨rfl, rfl, rfl, rfl, rfl, rfl, rfl, id⟩

/-- `sie` has no machine bits and `sip` no writable timer bit. -/
theorem keeps_supervisorCsr {instruction : Word} (hnames : csrAddress instruction ∈ supervisorViews)
    {s t : Vm} (hrun : riscvGenericCsrCallback instruction s = .ok () t) : Keeps s t := by
  have hspec := riscvGenericCsrCallback_spec instruction s
  rw [wp_of_ok hrun] at hspec
  obtain ⟨csr, hcsr, heffect⟩ := hspec
  cases heffect with
  | read observed => exact keeps_observed observed
  | @write u f observed callback =>
      refine (keeps_observed observed).trans ?_
      generalize combined instruction csr s &&& csr.wpriMask = value
      simp only [supervisorViews, List.mem_cons, List.not_mem_nil, or_false] at hnames
      rcases hnames with hname | hname | hname
      · rw [hname] at hcsr
        cases hcsr
        cases callback
        exact ⟨rfl, rfl, rfl, rfl, rfl, rfl, rfl, id⟩
      · rw [hname] at hcsr
        cases hcsr
        cases callback
        refine ⟨?_, rfl, rfl, rfl, rfl, rfl, rfl, id⟩
        show (copyBit (copyBit (copyBit u.hart.ienable value 1) value 5) value 9).getLsbD 7 = _
        repeat rw [getLsbD_copyBit _ _ (by decide) (by decide), if_neg (by decide)]
        rfl
      · rw [hname] at hcsr
        cases hcsr
        cases callback
        apply keeps_ipending
        rw [getLsbD_copyBit _ _ (by decide) (by decide), if_neg (by decide)]

/-! ## Entering and leaving the firmware -/

theorem quiet_takeTrap (s : Vm) (level : BitVec 2) (cause tval : Word) :
    Quiet s { s with hart := s.hart.takeTrap level cause tval } := by
  rw [takeTrap_frame]
  exact ⟨rfl, rfl, rfl, rfl, rfl, id⟩

theorem quiet_returnFromMmode (s : Vm) : Quiet s { s with hart := s.hart.returnFromMmode } := by
  unfold Hart.returnFromMmode
  rw [flushOnChange_frame]
  exact ⟨rfl, rfl, rfl, rfl, rfl, id⟩

theorem quiet_mretCallback {s t : Vm} (hm : s.hart.privilegeLevel = PRIVILEGE_LEVEL_MACHINE)
    (hrun : mretCallback s = .ok () t) : Quiet s t := by
  have hspec : Wp mretCallback (fun _ t => Quiet s t) Never s := by
    unfold mretCallback assertHartRunningInMmode
    rw [wp_bind, wp_bind, wp_get, if_neg (not_not.mpr hm), wp_pure, wp_bind, wp_get, wp_bind]
    unfold assert
    split
    · exact quiet_returnFromMmode s
    · exact trivial
  rwa [wp_of_ok hrun] at hspec

/-- A round through the firmware does what the handler does, and nothing else to the timer. -/
theorem firmwareRound_spec {s u : Vm} (hp : Platform s)
    (hm : s.hart.privilegeLevel = PRIVILEGE_LEVEL_MACHINE)
    (hnames : machineCause s = CAUSE_SUPERVISOR_ECALL → NamesHarts s.hart.registers s)
    (hrun : firmwareRound s = .ok () u) :
    ∃ frame t, Handled s.hart.registers s frame t ∧ Quiet t u := by
  unfold firmwareRound at hrun
  rw [bind_apply_ok (get_apply s)] at hrun
  have hspec := fwTrapHandler_spec hp hm hnames
  cases hhandler : fwTrapHandler s.hart.registers s with
  | error e t =>
      rw [bind_apply_error hhandler] at hrun
      cases hrun
  | ok frame t =>
      rw [bind_apply_ok hhandler] at hrun
      rw [wp_of_ok hhandler] at hspec
      refine ⟨frame, t, hspec, ?_⟩
      have hlevel : t.hart.privilegeLevel = PRIVILEGE_LEVEL_MACHINE :=
        hspec.privilegeLevel.trans hm
      have hreturn := quiet_mretCallback (s := { t with hart := { t.hart with registers := frame } })
        hlevel hrun
      exact ⟨hreturn.ienable, hreturn.ipending, hreturn.clint, hreturn.pmrOps, hreturn.hartId,
        hreturn.delegates⟩

/-! ## Delivery -/

theorem pending_and_enabled {h : Hart} {vector : Nat}
    (hdeliverable : h.isInterruptDeliverable vector = true) :
    h.ipending.getLsbD vector = true ∧ h.ienable.getLsbD vector = true := by
  have hbit : ∀ blob : Word, blob &&& (1#32 <<< vector) ≠ 0 → blob.getLsbD vector = true := by
    intro blob hne
    by_contra hclear
    apply hne
    apply BitVec.eq_of_getLsbD_eq
    intro i hi
    have hone : (1#32 <<< vector).getLsbD i = (decide (vector < 32) && decide (vector = i)) :=
      BitVec.getLsbD_twoPow vector i
    have hzero : BitVec.getLsbD (0 : Word) i = false := BitVec.getLsbD_zero
    rw [BitVec.getLsbD_and, hone, hzero]
    by_cases heq : vector = i
    · subst heq
      simp only [Bool.not_eq_true] at hclear
      rw [hclear, Bool.false_and]
    · simp [heq]
  unfold Hart.isInterruptDeliverable at hdeliverable
  simp only at hdeliverable
  split at hdeliverable
  · cases hdeliverable
  · rename_i hnone
    rw [not_or] at hnone
    exact ⟨hbit _ hnone.1, hbit _ hnone.2⟩

/-- An interrupt delivered from `s`, out of the refreshed state `r`. -/
structure Delivered (s r : Vm) (vector : Nat) : Prop where
  keeps : Keeps s r
  mem : vector ∈ deliveryOrder
  deliverable : r.hart.isInterruptDeliverable vector = true
  mtip : r.hart.ipending.getLsbD 7 = decide (r.clint.mtimecmp r.hart.hartId ≤ r.clint.mtime)

theorem refreshed_of_pump (s : Vm) :
    Wp refreshed
      (fun _ r => Keeps s r ∧
        r.hart.ipending.getLsbD 7 = decide (r.clint.mtimecmp r.hart.hartId ≤ r.clint.mtime))
      Never s := by
  unfold refreshed
  rw [wp_bind, wp_modify]
  refine wp_mono (refreshDeviceInterrupts_spec _) ?_ fun _ _ h => h
  intro _ r hr
  have htick : Keeps s { s with clint := s.clint.advanceTime s.ticksPerTranslationUnit } :=
    keeps_clint rfl rfl rfl
  refine ⟨htick.trans hr.keeps, ?_⟩
  rw [hr.mtip, hr.clint, hr.keeps.hartId]

theorem pump_spec (s : Vm) :
    Wp pumpDevicesAndDeliverInterrupts (fun _ t => Keeps s t)
      (fun e t => e = .trap → ∃ r vector, Delivered s r vector ∧ t = interrupted r vector) s := by
  have hspec := refreshed_of_pump s
  cases hrun : refreshed s with
  | error e t =>
      have hexit := refreshed_spec s
      rw [wp_of_error hrun] at hexit
      rw [pump_eq, wp_bind, wp_of_error hrun]
      intro htrap
      rw [htrap] at hexit
      cases hexit.1
  | ok a r =>
      rw [wp_of_ok hrun] at hspec
      obtain ⟨hkeeps, hmtip⟩ := hspec
      have hpump := pump_of_refreshed hrun
      cases hfind : deliveryOrder.find? r.hart.isInterruptDeliverable with
      | none =>
          rw [hfind] at hpump
          rw [wp_of_ok hpump]
          exact hkeeps
      | some vector =>
          rw [hfind] at hpump
          rw [wp_of_error hpump]
          intro _
          exact ⟨r, vector, ⟨hkeeps, List.mem_of_find?_eq_some hfind, List.find?_some hfind, hmtip⟩,
            rfl⟩

theorem trapCause_interrupted (r : Vm) (vector : Nat) :
    trapCause (interrupted r vector).hart = 0x80000000#32 ||| BitVec.ofNat 32 vector :=
  (takeTrap_handler r.hart _ 0 (interruptTarget_cases r.hart vector)).1

theorem keeps_interrupted (r : Vm) (vector : Nat) : Keeps r (interrupted r vector) :=
  (quiet_takeTrap r _ _ 0).keeps

/-- The causes of delivered interrupts tell the vectors apart. -/
theorem cause_cases {vector : Nat} (hmem : vector ∈ deliveryOrder) :
    (0x80000000#32 ||| BitVec.ofNat 32 vector = 0x80000007 ↔ vector = INTERRUPT_MACHINE_TIMER) ∧
      ((0x80000000#32 ||| BitVec.ofNat 32 vector) &&& 0xff = IRQ_MACHINE_TIMER ↔
        vector = INTERRUPT_MACHINE_TIMER) ∧
      0x80000000#32 ||| BitVec.ofNat 32 vector ≠ CAUSE_SUPERVISOR_ECALL := by
  revert hmem vector
  decide

/-! ## The invariant -/

/-- Where the tick requested last is: in the machine timer or in the supervisor's pending bit. -/
structure Ticks (l : Timeline) : Prop where
  platform : Platform l.vm
  delegates : DelegatesSupervisor l.vm.hart
  idle : l.deadline = none → mtie l.vm = false ∧ stip l.vm = false ∧ l.taken = 0
  waiting : ∀ next, l.deadline = some next →
    mtie l.vm = !stip l.vm ∧ l.vm.clint.mtimecmp l.vm.hart.hartId = next ∧
      (stip l.vm = true → l.reached = true) ∧ l.taken = if stip l.vm then 1 else 0

/-- A step outside the firmware moves no tick. -/
theorem ticks_observe {l : Timeline} {t : Vm} (h : Ticks l) (hkeeps : Keeps l.vm t) :
    Ticks (l.observe t) where
  platform := hkeeps.platform h.platform
  delegates := hkeeps.delegates h.delegates
  idle hnone := by
    obtain ⟨hmtie, hstip, htaken⟩ := h.idle hnone
    exact ⟨hkeeps.mtie.trans hmtie, hkeeps.stip.trans hstip, htaken⟩
  waiting next hnext := by
    obtain ⟨hmtie, hcmp, hreached, htaken⟩ := h.waiting next hnext
    refine ⟨?_, ?_, ?_, ?_⟩
    · show mtie t = !stip t
      rw [hkeeps.mtie, hkeeps.stip]
      exact hmtie
    · show t.clint.mtimecmp t.hart.hartId = next
      rw [hkeeps.mtimecmp, hkeeps.hartId]
      exact hcmp
    · intro hset
      show (l.reached || l.due t) = true
      rw [hreached (hkeeps.stip.symm.trans hset), Bool.true_or]
    · show l.taken = if stip t then 1 else 0
      rw [hkeeps.stip]
      exact htaken

/-- A request replaces whatever tick there was. -/
theorem ticks_request {l : Timeline} {frame : TrapFrame} {next : DWord} {t u : Vm}
    (hrequest : requests frame = some next) (hp : Platform t) (hd : DelegatesSupervisor t.hart)
    (hquiet : Keeps (armed next t) u) : Ticks (l.call frame u) := by
  have hcall : l.call frame u =
      { vm := u, deadline := some next, reached := next ≤ u.clint.mtime, taken := 0 } := by
    unfold Timeline.call
    rw [hrequest]
  have hmtie : mtie u = true := by
    refine hquiet.mtie.trans ?_
    show (enableSet t.hart.ienable MIE_MTIE).getLsbD 7 = true
    rw [getLsbD_enableSet]
    simp [MIE_MTIE]
  have hstip : stip u = false := by
    refine hquiet.stip.trans ?_
    show (pendingCleared t.hart.ipending MIP_STIP).getLsbD 5 = false
    rw [getLsbD_pendingCleared _ _ (by decide) (by decide)]
    simp [MIP_STIP]
  rw [hcall]
  refine ⟨hquiet.platform ⟨hp.pmrOps, hp.clintBase, hp.hartId⟩, hquiet.delegates hd, ?_, ?_⟩
  · intro hnone
    cases hnone
  · intro next' hnext
    cases hnext
    refine ⟨?_, ?_, ?_, ?_⟩
    · rw [hmtie, hstip]
      rfl
    · show u.clint.mtimecmp u.hart.hartId = next
      rw [hquiet.mtimecmp, hquiet.hartId]
      exact Function.update_self _ _ _
    · intro hset
      rw [hstip] at hset
      cases hset
    · rw [hstip]
      rfl

/-- The machine timer interrupt moves the tick to the supervisor. -/
theorem ticks_ticked {l : Timeline} {t u : Vm} (h : Ticks l) (hkeeps : Keeps l.vm t)
    (hquiet : Keeps (ticked t) u) (henabled : mtie t = true)
    (hmtime : u.clint.mtime = t.clint.mtime)
    (hdue : t.clint.mtimecmp t.hart.hartId ≤ t.clint.mtime) :
    Ticks { l.observe u with taken := l.taken + 1 } := by
  have hmtie : mtie u = false := by
    refine hquiet.mtie.trans ?_
    show (enableCleared t.hart.ienable MIE_MTIE).getLsbD 7 = false
    rw [getLsbD_enableCleared _ _ (by decide)]
    simp [MIE_MTIE]
  have hstip : stip u = true := by
    refine hquiet.stip.trans ?_
    show (pendingSet t.hart.ipending MIP_STIP).getLsbD 5 = true
    rw [getLsbD_pendingSet _ _ (by decide) (by decide)]
    simp [MIP_STIP]
  have hpt := hkeeps.platform h.platform
  refine ⟨hquiet.platform ⟨hpt.pmrOps, hpt.clintBase, hpt.hartId⟩,
    hquiet.delegates (hkeeps.delegates h.delegates), ?_, ?_⟩
  · intro hnone
    have hmasked := (h.idle hnone).1
    rw [← hkeeps.mtie, henabled] at hmasked
    cases hmasked
  · intro next hwaiting
    have hnext : l.deadline = some next := hwaiting
    obtain ⟨harmed, hcmp, -, htaken⟩ := h.waiting next hnext
    rw [← hkeeps.mtie, henabled] at harmed
    have hclear : stip l.vm = false := by
      rw [← Bool.not_eq_true']
      exact harmed.symm
    have hcmp' : t.clint.mtimecmp t.hart.hartId = next := by
      rw [hkeeps.mtimecmp, hkeeps.hartId]
      exact hcmp
    refine ⟨?_, ?_, ?_, ?_⟩
    · show mtie u = !stip u
      rw [hmtie, hstip]
      rfl
    · show u.clint.mtimecmp u.hart.hartId = next
      rw [hquiet.mtimecmp, hquiet.hartId]
      exact hcmp'
    · intro _
      show (l.reached || l.deadline.any fun next => next ≤ u.clint.mtime) = true
      rw [hnext, hmtime, ← hcmp']
      simp only [Option.any_some, hdue, decide_true, Bool.or_true]
    · show l.taken + 1 = if stip u then 1 else 0
      rw [htaken, hclear, hstip]
      rfl

/-! ## Steps -/

/-- A call that arms no timer moves no tick. -/
theorem keeps_effect {frame : TrapFrame} {s t : Vm} (hnone : requests frame = none)
    (h : Effect frame s t) : Keeps s t := by
  cases h with
  | timer request =>
      rw [hnone] at request
      cases request
  | clearIpi id =>
      apply keeps_ipending
      rw [getLsbD_pendingCleared _ _ (by decide) (by decide)]
      simp [MIP_SSIP]
  | ipi msip _ => exact keeps_clint rfl rfl rfl
  | other _ stays =>
      rw [Local] at stays
      rw [stays]
      exact ⟨rfl, rfl, rfl, rfl, rfl, rfl, rfl, id⟩

theorem keeps_rung (s : Vm) : Keeps s (rung s) := by
  refine ⟨rfl, ?_, rfl, rfl, rfl, rfl, rfl, id⟩
  show (pendingSet s.hart.ipending MIP_SSIP).getLsbD 5 = _
  rw [getLsbD_pendingSet _ _ (by decide) (by decide)]
  simp [MIP_SSIP, stip]

theorem keeps_setMepc (s : Vm) (value : Word) :
    Keeps s { s with hart := s.hart.setCsrBlob CSR_ADDRESS_MEPC value } :=
  ⟨rfl, rfl, rfl, rfl, rfl, rfl, rfl, id⟩

/-- An `ecall` raises one of the three environment call exceptions. -/
theorem ecallCallback_trap {s t : Vm} (h : ecallCallback s = .error .trap t) :
    ∃ cause, cause ∈ [EXCEPTION_ECALL_FROM_UMODE, EXCEPTION_ECALL_FROM_SMODE,
      EXCEPTION_ECALL_FROM_MMODE] ∧ t = excepted s cause 0 := by
  have hraise : ∀ cause, cause < 16 →
      (raiseException cause : VmM Unit) s = .error .trap (excepted s cause 0) :=
    fun cause hlt => raiseExceptionWithTvalue_apply 0 s hlt
  unfold ecallCallback at h
  rw [bind_apply_ok (get_apply s)] at h
  split at h
  · rw [hraise _ (by decide)] at h
    cases h
    exact ⟨_, by decide, rfl⟩
  split at h
  · rw [hraise _ (by decide)] at h
    cases h
    exact ⟨_, by decide, rfl⟩
  split at h
  · rw [hraise _ (by decide)] at h
    cases h
    exact ⟨_, by decide, rfl⟩
  · cases h

theorem ecall_not_interrupt {cause : Nat} (hcause : cause ∈ [EXCEPTION_ECALL_FROM_UMODE,
      EXCEPTION_ECALL_FROM_SMODE, EXCEPTION_ECALL_FROM_MMODE]) :
    BitVec.ofNat 32 cause &&& 0x80000000 = 0 := by
  revert hcause cause
  decide

theorem machineCause_of_level {t : Vm} (hm : t.hart.privilegeLevel = PRIVILEGE_LEVEL_MACHINE) :
    trapCause t.hart = machineCause t :=
  if_pos hm

theorem ticks_sbi {l : Timeline} (h : Ticks l) {t u : Vm}
    (htrap : ecallCallback l.vm = .error .trap t)
    (hm : t.hart.privilegeLevel = PRIVILEGE_LEVEL_MACHINE) (hnames : NamesHarts t.hart.registers t)
    (hrun : firmwareRound t = .ok () u) : Ticks (l.call t.hart.registers u) := by
  obtain ⟨cause, hcause, rfl⟩ := ecallCallback_trap htrap
  have hentered : Keeps l.vm (excepted l.vm cause 0) := (quiet_takeTrap l.vm _ _ _).keeps
  have hp := hentered.platform h.platform
  have hfound : machineCause (excepted l.vm cause 0) = BitVec.ofNat 32 cause :=
    (machineCause_of_level hm).symm.trans (excepted_handler l.vm cause 0).1
  have hexception : BitVec.ofNat 32 cause &&& 0x80000000 = 0 := ecall_not_interrupt hcause
  obtain ⟨frame, v, hhandled, hquiet⟩ := firmwareRound_spec hp hm (fun _ => hnames) hrun
  cases hhandled with
  | timer interrupt _ =>
      rw [hfound] at interrupt
      exact absurd hexception interrupt
  | software interrupt _ =>
      rw [hfound] at interrupt
      exact absurd hexception interrupt
  | @ecall _ w _ served =>
      have hleave : Keeps w u := (keeps_setMepc w _).trans hquiet.keeps
      cases hrequest : requests (excepted l.vm cause 0).hart.registers with
      | some next =>
          have harmed : w = armed next (excepted l.vm cause 0) := by
            cases served.effect with
            | timer request =>
                rw [hrequest] at request
                cases request
                rfl
            | clearIpi id =>
                have hnone := requests_of_id id (by decide) (by decide)
                rw [hrequest] at hnone
                cases hnone
            | ipi _ hnone =>
                rw [hrequest] at hnone
                cases hnone
            | other hnone _ =>
                rw [hrequest] at hnone
                cases hnone
          rw [harmed] at hleave
          exact ticks_request hrequest hp (hentered.delegates h.delegates) hleave
      | none =>
          unfold Timeline.call
          rw [hrequest]
          exact ticks_observe h ((hentered.trans (keeps_effect hrequest served.effect)).trans hleave)

theorem ticks_supervisorInterrupt {l : Timeline} (h : Ticks l) {t : Vm}
    (htrap : pumpDevicesAndDeliverInterrupts l.vm = .error .trap t)
    (hs : t.hart.privilegeLevel = PRIVILEGE_LEVEL_SUPERVISOR) :
    Ticks (l.interrupt (trapCause t.hart) t) := by
  have hspec := pump_spec l.vm
  rw [wp_of_error htrap] at hspec
  obtain ⟨r, vector, hdelivered, rfl⟩ := hspec rfl
  have hvector : vector ≠ INTERRUPT_MACHINE_TIMER := by
    -- the machine timer is never delegated
    rintro rfl
    rw [privilegeLevel_interrupted, target_of_not_delegable
      (hdelivered.keeps.delegates h.delegates) (by decide)] at hs
    cases hs
  have hcause : trapCause (interrupted r vector).hart ≠ 0x80000007 := by
    rw [trapCause_interrupted]
    exact fun heq => hvector ((cause_cases hdelivered.mem).1.mp heq)
  unfold Timeline.interrupt
  simp only
  rw [if_neg hcause]
  exact ticks_observe h (hdelivered.keeps.trans (keeps_interrupted r vector))

theorem ticks_machineInterrupt {l : Timeline} (h : Ticks l) {t u : Vm}
    (htrap : pumpDevicesAndDeliverInterrupts l.vm = .error .trap t)
    (hm : t.hart.privilegeLevel = PRIVILEGE_LEVEL_MACHINE) (hrun : firmwareRound t = .ok () u) :
    Ticks (l.interrupt (trapCause t.hart) u) := by
  have hspec := pump_spec l.vm
  rw [wp_of_error htrap] at hspec
  obtain ⟨r, vector, hdelivered, rfl⟩ := hspec rfl
  have hentered : Keeps l.vm (interrupted r vector) :=
    hdelivered.keeps.trans (keeps_interrupted r vector)
  have hfound : machineCause (interrupted r vector) = 0x80000000#32 ||| BitVec.ofNat 32 vector :=
    (machineCause_of_level hm).symm.trans (trapCause_interrupted r vector)
  obtain ⟨htimer, hirq, hecall⟩ := cause_cases hdelivered.mem
  have hnotEcall : machineCause (interrupted r vector) ≠ CAUSE_SUPERVISOR_ECALL := by
    rw [hfound]
    exact hecall
  obtain ⟨frame, v, hhandled, hquiet⟩ := firmwareRound_spec (hentered.platform h.platform) hm
    (fun hcause => absurd hcause hnotEcall) hrun
  rw [trapCause_interrupted]
  unfold Timeline.interrupt
  simp only
  cases hhandled with
  | timer _ cause =>
      rw [hfound] at cause
      obtain rfl := hirq.mp cause
      rw [if_pos (htimer.mpr rfl)]
      obtain ⟨hpending, henabled⟩ := pending_and_enabled hdelivered.deliverable
      have hclint : (interrupted r INTERRUPT_MACHINE_TIMER).clint = r.clint := rfl
      have hmtime : u.clint.mtime = r.clint.mtime := by
        rw [hquiet.clint]
        rfl
      have hdue : r.clint.mtimecmp r.hart.hartId ≤ r.clint.mtime := by
        have hmtip := hdelivered.mtip
        rw [show r.hart.ipending.getLsbD 7 = true from hpending] at hmtip
        exact of_decide_eq_true hmtip.symm
      refine ticks_ticked h hentered hquiet.keeps ?_ hmtime ?_
      · rw [(keeps_interrupted r _).mtie]
        exact henabled
      · rw [hclint, (keeps_interrupted r _).hartId]
        exact hdue
  | software _ cause =>
      have hvector : vector ≠ INTERRUPT_MACHINE_TIMER := by
        rintro rfl
        rw [hfound] at cause
        exact absurd cause (by decide)
      rw [if_neg fun heq => hvector (htimer.mp heq)]
      exact ticks_observe h (hentered.trans ((keeps_rung _).trans hquiet.keeps))
  | ecall cause _ => exact absurd cause hnotEcall

theorem ticks_step {l l' : Timeline} (h : Ticks l) (hstep : Step l l') : Ticks l' := by
  cases hstep with
  | sbi trap level names returns => exact ticks_sbi h trap level names returns
  | pump runs =>
      have hspec := pump_spec l.vm
      rw [wp_of_ok runs] at hspec
      exact ticks_observe h hspec
  | supervisorInterrupt trap level => exact ticks_supervisorInterrupt h trap level
  | machineInterrupt trap level returns => exact ticks_machineInterrupt h trap level returns
  | wfi runs =>
      have hspec : Wp wfiCallback (fun _ t => Keeps l.vm t) Never l.vm :=
        ends_hartIdleLoop l.vm 64 l.vm (Keeps.refl l.vm)
      rw [wp_of_ok runs] at hspec
      exact ticks_observe h hspec
  | advance ticks => exact ticks_observe h (keeps_clint rfl rfl rfl)
  | refresh runs =>
      have hspec := refreshDeviceInterrupts_spec l.vm
      rw [wp_of_ok runs] at hspec
      exact ticks_observe h hspec.keeps
  | csr instruction names runs => exact ticks_observe h (keeps_supervisorCsr names runs)
  | quiet quiet => exact ticks_observe h quiet.keeps

theorem ticks_start {hc : HostCode} {s t : Vm} (hreach : Reachable hc s) (hp : Platform s)
    {fwTrapVector : Word} (hrun : sbiInit fwTrapVector s = .ok () t) :
    Ticks { vm := t, deadline := none, reached := false, taken := 0 } := by
  have hdelegates := reachable_delegatesSupervisor hreach
  rw [sbiInit_apply] at hrun
  cases hrun
  refine ⟨⟨hp.pmrOps, hp.clintBase, hp.hartId⟩, hdelegates, ?_, ?_⟩
  · intro _
    refine ⟨show (MIE_MSIE &&& 0xaaa).getLsbD 7 = false by decide, ?_, rfl⟩
    show (pendingWrite s.hart.ipending 0).getLsbD 5 = false
    rw [getLsbD_pendingWrite _ (by decide)]
    simp
  · intro next hnext
    cases hnext

theorem Run.ticks {hc : HostCode} {l : Timeline} (h : Run hc l) : Ticks l := by
  induction h with
  | start reachable platform fwTrapVector runs => exact ticks_start reachable platform runs
  | step _ step ih => exact ticks_step ih step

/-! ## Every run -/

/--
The tick requested last is in one place: nowhere before the first request,
afterwards in exactly one of `mie.MTIE` and `mip.STIP`, in the latter only once
the clock has reached the deadline, and moved there by at most one interrupt.
-/
structure OneTick (l : Timeline) : Prop where
  before : l.deadline = none → mtie l.vm = false ∧ stip l.vm = false
  after : l.deadline ≠ none → (mtie l.vm = true ∧ stip l.vm = false) ∨
    (mtie l.vm = false ∧ stip l.vm = true)
  notEarly : stip l.vm = true → l.reached = true
  once : l.taken ≤ 1

theorem one_tick {hc : HostCode} {l : Timeline} (h : Run hc l) : OneTick l := by
  have hticks := h.ticks
  cases hdeadline : l.deadline with
  | none =>
      obtain ⟨hmtie, hstip, htaken⟩ := hticks.idle hdeadline
      refine ⟨fun _ => ⟨hmtie, hstip⟩, fun hne => absurd hdeadline hne, ?_, ?_⟩
      · intro hset
        rw [hstip] at hset
        cases hset
      · rw [htaken]
        exact Nat.zero_le 1
  | some next =>
      obtain ⟨hmtie, -, hreached, htaken⟩ := hticks.waiting next hdeadline
      refine ⟨?_, fun _ => ?_, hreached, ?_⟩
      · intro hnone
        rw [hdeadline] at hnone
        cases hnone
      · cases hstip : stip l.vm with
        | false =>
            rw [hstip] at hmtie
            exact .inl ⟨hmtie, rfl⟩
        | true =>
            rw [hstip] at hmtie
            exact .inr ⟨hmtie, rfl⟩
      · rw [htaken]
        split <;> omega

/-! ## A tick that arrives -/

def bootVm : Vm := virtualMachineInit (fun _ => 0) fun _ => 0

/-- The supervisor of the boot machine, about to ask for a tick at time zero. -/
def supervisorVm : Vm :=
  let vm := finalState (sbiInit 0x4100 bootVm)
  { vm with hart := { vm.hart with privilegeLevel := PRIVILEGE_LEVEL_SUPERVISOR } }

def requestVm : Vm := finalState (firmwareRound (finalState (ecallCallback supervisorVm)))

def tickVm : Vm := finalState (firmwareRound (finalState (pumpDevicesAndDeliverInterrupts requestVm)))

def bootTimeline : Timeline :=
  { vm := finalState (sbiInit 0x4100 bootVm), deadline := none, reached := false, taken := 0 }

def tickTimeline : Timeline :=
  let l := bootTimeline.observe supervisorVm
  let l := l.call (finalState (ecallCallback supervisorVm)).hart.registers requestVm
  l.interrupt (trapCause (finalState (pumpDevicesAndDeliverInterrupts requestVm)).hart) tickVm

theorem run_tickTimeline : Run evenHostCode tickTimeline := by
  have hinit : sbiInit 0x4100 bootVm = .ok () (finalState (sbiInit 0x4100 bootVm)) := by
    rw [sbiInit_apply]
    rfl
  have hecall : ecallCallback supervisorVm =
      .error .trap (finalState (ecallCallback supervisorVm)) :=
    eq_error_of_abortOf (by decide +kernel)
  have hserved : ∃ a, firmwareRound (finalState (ecallCallback supervisorVm)) = .ok a requestVm :=
    eq_ok_of_isOk (by decide +kernel)
  have hpump : pumpDevicesAndDeliverInterrupts requestVm =
      .error .trap (finalState (pumpDevicesAndDeliverInterrupts requestVm)) :=
    eq_error_of_abortOf (by decide +kernel)
  have hhandled : ∃ a, firmwareRound (finalState (pumpDevicesAndDeliverInterrupts requestVm)) =
      .ok a tickVm :=
    eq_ok_of_isOk (by decide +kernel)
  have hstart : Run evenHostCode bootTimeline :=
    .start (.start ⟨rfl, rfl, rfl, rfl, rfl, rfl⟩) ⟨rfl, rfl, by decide⟩ 0x4100 hinit
  have hquiet : Quiet bootTimeline.vm supervisorVm := ⟨rfl, rfl, rfl, rfl, rfl, id⟩
  obtain ⟨_, hserved⟩ := hserved
  obtain ⟨_, hhandled⟩ := hhandled
  have hnames : NamesHarts (finalState (ecallCallback supervisorVm)).hart.registers
      (finalState (ecallCallback supervisorVm)) := by
    intro hid
    exact absurd hid (by decide +kernel)
  refine ((hstart.step (.quiet hquiet)).step (.sbi hecall (by decide +kernel) hnames hserved)).step ?_
  exact .machineInterrupt hpump (by decide +kernel) hhandled

theorem one_tick_taken :
    OneTick tickTimeline ∧ tickTimeline.deadline = some 0 ∧ tickTimeline.taken = 1 ∧
      stip tickTimeline.vm = true := by
  refine ⟨one_tick run_tickTimeline, ?_, ?_, ?_⟩
  · decide +kernel
  · decide +kernel
  · decide +kernel

end Zelda.Proofs.TimerTicks
