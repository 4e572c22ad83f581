import Zelda.Proofs.TrapFrame
/-!
# The trap vector is transparent

The compiled handler edits the frame as the source does and obeys the calling
convention.  What the interrupted code finds after the final `mret` is then
decided by the frame and by what an SBI call may change.
-/

namespace Zelda.Proofs.TrapVector

open Zelda.Vmm
open Zelda.Firmware
open Zelda.Lib.Effect
open Zelda.Proofs.Frames
open Zelda.Proofs.CsrAccess
open Zelda.Proofs.SbiCalls
open Zelda.Proofs.TrapFrame

/-! ## The compiled handler -/

/-- The registers a callee hands back as it found them. -/
def calleeSaved : List RegIndex :=
  [REG_SP, 3, 4, 8, 9, 18, 19, 20, 21, 22, 23, 24, 25, 26, 27]

/--
What the calling convention promises of a call of `fw_trap_handler` that
returned: the callee-saved registers are back, the frame that `a0` points to and
the machine are what the source leaves, and only ROM, which holds the stack, and
the other registers may differ.
-/
structure Obeys (s t : Vm) : Prop where
  preserved : ∀ register ∈ calleeSaved, t.hart.registers register = s.hart.registers register
  source : ∃ u : Vm,
    fwTrapHandler (frameAt s (s.hart.registers REG_A0)) s =
        .ok (frameAt t (s.hart.registers REG_A0)) u ∧
      t = { u with
        hart := { u.hart with registers := t.hart.registers }
        bootrom := { u.bootrom with bytes := t.bootrom.bytes } }

/--
The machine code of `fw_trap_handler`, called as the vector does: in machine
mode on the platform, with the frame below the stack top and `sp` at the frame.
-/
def Compiled (top : Word) (handler : VmM Unit) : Prop :=
  ∀ s t, Platform s → OnRom s → s.hart.registers REG_SP = frameBase top →
    s.hart.registers REG_A0 = frameBase top → handler s = .ok () t → Obeys s t

/-! ## What the handler spares -/

/-- The pending bits that a trap is meant to change. -/
def meant (cause : Word) (frame : TrapFrame) : Word :=
  if cause = 0x80000007 then MIP_STIP
  else if cause = 0x80000003 then MIP_SSIP
  else if (requests frame).isSome then MIP_STIP
  else if frame REG_A7 = SBI_EXT_LEGACY_CLEAR_IPI then MIP_SSIP
  else 0

/-- The causes of the traps that the firmware handles. -/
def handledCauses : List Word :=
  [0x80000007, 0x80000003, CAUSE_SUPERVISOR_ECALL]

/-- The part of the machine that no trap into the firmware changes. -/
structure Spares (bits : Word) (s t : Vm) : Prop where
  status : t.hart.status = s.hart.status
  csrBlob : ∀ address, address ≠ CSR_ADDRESS_MEPC → t.hart.csrBlob address = s.hart.csrBlob address
  ienable : ∀ i, i = 1 ∨ i = 5 ∨ i = 9 → t.hart.ienable.getLsbD i = s.hart.ienable.getLsbD i
  ipending : ∀ i, i = 1 ∨ i = 5 ∨ i = 9 → bits.getLsbD i = false →
    t.hart.ipending.getLsbD i = s.hart.ipending.getLsbD i
  privilegeLevel : t.hart.privilegeLevel = s.hart.privilegeLevel
  pmrOps : t.pmrOps = s.pmrOps
  bootrom : t.bootrom = s.bootrom

theorem lt_of_exposed {i : Nat} (hi : i = 1 ∨ i = 5 ∨ i = 9) :
    i < 32 ∧ (0x222 : Word).getLsbD i = true := by
  rcases hi with rfl | rfl | rfl <;> decide

section Bits

variable (blob bits : Word) {i : Nat} (hi : i = 1 ∨ i = 5 ∨ i = 9)
include hi

theorem pendingCleared_spares (hbit : bits.getLsbD i = false) :
    (pendingCleared blob bits).getLsbD i = blob.getLsbD i := by
  obtain ⟨hlt, hmask⟩ := lt_of_exposed hi
  rw [getLsbD_pendingCleared _ _ hlt hmask, hbit]
  simp

theorem pendingSet_spares (hbit : bits.getLsbD i = false) :
    (pendingSet blob bits).getLsbD i = blob.getLsbD i := by
  obtain ⟨hlt, hmask⟩ := lt_of_exposed hi
  rw [getLsbD_pendingSet _ _ hlt hmask, hbit]
  simp

theorem enableSet_spares : (enableSet blob MIE_MTIE).getLsbD i = blob.getLsbD i := by
  rw [getLsbD_enableSet]
  rcases hi with rfl | rfl | rfl <;> simp [MIE_MTIE]

theorem enableCleared_spares : (enableCleared blob MIE_MTIE).getLsbD i = blob.getLsbD i := by
  rw [getLsbD_enableCleared _ _ (lt_of_exposed hi).1]
  rcases hi with rfl | rfl | rfl <;> simp [MIE_MTIE]

end Bits

theorem meant_of_request {frame : TrapFrame} {next : DWord} (h : requests frame = some next) :
    meant CAUSE_SUPERVISOR_ECALL frame = MIP_STIP := by
  unfold meant
  rw [if_neg (by decide), if_neg (by decide), h]
  rfl

theorem meant_of_clearIpi {frame : TrapFrame} (h : frame REG_A7 = SBI_EXT_LEGACY_CLEAR_IPI) :
    meant CAUSE_SUPERVISOR_ECALL frame = MIP_SSIP := by
  unfold meant
  rw [if_neg (by decide), if_neg (by decide), requests_of_id h (by decide) (by decide), if_neg,
    if_pos h]
  simp

theorem effect_spares {frame : TrapFrame} {s t : Vm} (h : Effect frame s t) :
    Spares (meant CAUSE_SUPERVISOR_ECALL frame) s t := by
  cases h with
  | timer request =>
      rw [meant_of_request request]
      exact ⟨rfl, fun _ _ => rfl, fun i hi => enableSet_spares _ hi,
        fun i hi hbit => pendingCleared_spares _ _ hi hbit, rfl, rfl, rfl⟩
  | clearIpi id =>
      rw [meant_of_clearIpi id]
      exact ⟨rfl, fun _ _ => rfl, fun _ _ => rfl,
        fun i hi hbit => pendingCleared_spares _ _ hi hbit, rfl, rfl, rfl⟩
  | ipi msip _ => exact ⟨rfl, fun _ _ => rfl, fun _ _ => rfl, fun _ _ _ => rfl, rfl, rfl, rfl⟩
  | other _ stays =>
      rw [Local] at stays
      rw [stays]
      exact ⟨rfl, fun _ _ => rfl, fun _ _ => rfl, fun _ _ _ => rfl, rfl, rfl, rfl⟩

theorem handledCauses_cases {cause : Word} (h : cause ∈ handledCauses) :
    cause = 0x80000007 ∨ cause = 0x80000003 ∨ cause = CAUSE_SUPERVISOR_ECALL := by
  simpa only [handledCauses, List.mem_cons, List.not_mem_nil, or_false] using h

theorem handled_spares {frame frame' : TrapFrame} {s t : Vm} (h : Handled frame s frame' t)
    (hcause : machineCause s ∈ handledCauses) : Spares (meant (machineCause s) frame) s t := by
  cases h with
  | timer interrupt cause =>
      have htimer : machineCause s = 0x80000007 := by
        rcases handledCauses_cases hcause with h | h | h
        · exact h
        · rw [h] at cause
          exact absurd cause (by decide)
        · rw [h] at interrupt
          exact absurd interrupt (by decide)
      rw [htimer]
      exact ⟨rfl, fun _ _ => rfl, fun i hi => enableCleared_spares _ hi,
        fun i hi hbit => pendingSet_spares _ _ hi hbit, rfl, rfl, rfl⟩
  | software interrupt cause =>
      have hsoftware : machineCause s = 0x80000003 := by
        rcases handledCauses_cases hcause with h | h | h
        · rw [h] at cause
          exact absurd cause (by decide)
        · exact h
        · rw [h] at interrupt
          exact absurd interrupt (by decide)
      rw [hsoftware]
      exact ⟨rfl, fun _ _ => rfl, fun _ _ => rfl,
        fun i hi hbit => pendingSet_spares _ _ hi hbit, rfl, rfl, rfl⟩
  | @ecall _ u cause served =>
      rw [cause]
      obtain ⟨hstatus, hblob, henable, hpending, hlevel, hops, hrom⟩ := effect_spares served.effect
      refine ⟨hstatus, fun address hne => ?_, henable, hpending, hlevel, hops, hrom⟩
      show Function.update u.hart.csrBlob CSR_ADDRESS_MEPC _ address = _
      rw [Function.update_of_ne hne]
      exact hblob address hne

/-! ## The supervisor's registers -/

/-- Bits 9:8 of a CSR address name the supervisor. -/
def SupervisorLevel (address : CsrAddress) : Prop :=
  address.extractLsb' 8 2 = 1#2

/-- The registers a firmware trap goes through. -/
def trapRegisters : List CsrAddress :=
  [CSR_ADDRESS_MCAUSE, CSR_ADDRESS_MTVAL, CSR_ADDRESS_MEPC, CSR_ADDRESS_MSCRATCH]

/-- The kinds of registers at supervisor level. -/
inductive SupervisorKind : CsrAddress → CsrEntry → Prop
  | blob {address : CsrAddress} (spared : address ∉ trapRegisters) :
      SupervisorKind address (blobCsrEntry address WPRI_MASK_ALL)
  | satp : SupervisorKind CSR_ADDRESS_SATP satpCsrEntry
  | sie : SupervisorKind CSR_ADDRESS_SIE sieCsrEntry
  | sip : SupervisorKind CSR_ADDRESS_SIP sipCsrEntry
  | sstatus : SupervisorKind CSR_ADDRESS_SSTATUS sstatusCsrEntry

theorem csrRegistery_supervisor :
    ∀ entry ∈ csrRegistery, SupervisorLevel entry.1 → SupervisorKind entry.1 entry.2 := by
  have hother : ∀ {address : CsrAddress} {csr : CsrEntry}, ¬address.extractLsb' 8 2 = 1#2 →
      SupervisorLevel address → SupervisorKind address csr := fun hne h => absurd h hne
  have hblob : ∀ {address : CsrAddress}, address ∉ trapRegisters → SupervisorLevel address →
      SupervisorKind address (blobCsrEntry address WPRI_MASK_ALL) := fun hnot _ => .blob hnot
  unfold csrRegistery
  simp only [List.forall_mem_append, List.forall_mem_cons, List.forall_mem_map]
  refine ⟨⟨⟨hother (by decide), hother (by decide), hother (by decide), hother (by decide),
    hother (by decide), hother (by decide), hother (by decide), hother (by decide),
    hother (by decide), hother (by decide), hother (by decide), hother (by decide),
    hother (by decide), hother (by decide), hblob (by decide), fun _ => .satp, fun _ => .sie,
    fun _ => .sip, fun _ => .sstatus, hblob (by decide), hblob (by decide), hblob (by decide),
    hblob (by decide), hblob (by decide), hother (by decide), hother (by decide),
    hother (by decide), hother (by decide), hother (by decide), hother (by decide),
    hother (by decide), hother (by decide), hother (by decide), hother (by decide),
    hother (by decide), hother (by decide), hother (by decide), hother (by decide),
    hother (by decide), hblob (by decide), fun _ h => nomatch h⟩, ?_⟩, ?_⟩
  · intro idx _
    exact hother (by revert idx; decide)
  · intro idx _
    exact hother (by revert idx; decide)

theorem csrEntryAt_supervisor {address : CsrAddress} {csr : CsrEntry}
    (h : csrEntryAt address = some csr) (hlevel : SupervisorLevel address) :
    SupervisorKind address csr := by
  obtain ⟨before, later, hlist, -⟩ := List.lookup_eq_some_iff.mp h
  exact csrRegistery_supervisor (address, csr) (by rw [hlist]; simp) hlevel

/-- What the supervisor can see of the hart through its registers. -/
structure SameView (bits : Word) (s t : Vm) : Prop where
  csrBlob : ∀ address, address ∉ trapRegisters → t.hart.csrBlob address = s.hart.csrBlob address
  uie : t.hart.status.uie = s.hart.status.uie
  sie : t.hart.status.sie = s.hart.status.sie
  upie : t.hart.status.upie = s.hart.status.upie
  spie : t.hart.status.spie = s.hart.status.spie
  spp : t.hart.status.spp = s.hart.status.spp
  ienable : ∀ i, i = 1 ∨ i = 5 ∨ i = 9 → t.hart.ienable.getLsbD i = s.hart.ienable.getLsbD i
  ipending : ∀ i, i = 1 ∨ i = 5 ∨ i = 9 → bits.getLsbD i = false →
    t.hart.ipending.getLsbD i = s.hart.ipending.getLsbD i

theorem readValue_of_sameView {bits : Word} {s t : Vm} (h : SameView bits s t)
    {address : CsrAddress} {csr : CsrEntry} (hcsr : csrEntryAt address = some csr)
    (hlevel : SupervisorLevel address) (hsip : address ≠ CSR_ADDRESS_SIP) :
    readValue csr t = readValue csr s := by
  cases csrEntryAt_supervisor hcsr hlevel with
  | blob spared =>
      show t.hart.csrBlob address &&& WPRI_MASK_ALL = s.hart.csrBlob address &&& WPRI_MASK_ALL
      rw [h.csrBlob address spared]
  | satp =>
      show t.hart.csrBlob CSR_ADDRESS_SATP &&& WPRI_MASK_ALL =
        s.hart.csrBlob CSR_ADDRESS_SATP &&& WPRI_MASK_ALL
      rw [h.csrBlob CSR_ADDRESS_SATP (by decide)]
  | sie =>
      have hview : ∀ vm : Vm, readValue sieCsrEntry vm = vm.hart.ienable &&& 0xaaa &&& 0x222 :=
        CsrViews.enableView_agrees
      rw [hview t, hview s, ← CsrViews.and_exposed h.ienable]
      exact (CsrViews.and_exposed fun _ _ => rfl).symm
  | sip => exact absurd rfl hsip
  | sstatus =>
      unfold readValue sstatusCsrEntry
      simp only
      rw [h.uie, h.sie, h.upie, h.spie, h.spp]

theorem sip_of_sameView {bits : Word} {s t : Vm} (h : SameView bits s t) :
    readValue sipCsrEntry t &&& ~~~bits = readValue sipCsrEntry s &&& ~~~bits := by
  have hview : ∀ vm : Vm, readValue sipCsrEntry vm = vm.hart.ipending &&& 0xaaa &&& 0x222 :=
    CsrViews.pendingView_agrees
  rw [hview t, hview s]
  apply BitVec.eq_of_getLsbD_eq
  intro i hi
  simp only [BitVec.getLsbD_and, BitVec.getLsbD_not, hi, decide_true, Bool.true_and]
  by_cases hmask : (0x222 : Word).getLsbD i = true
  · cases hbit : bits.getLsbD i with
    | true => simp
    | false => rw [h.ipending i (CsrViews.exposed_cases hi hmask) hbit]
  · rw [Bool.not_eq_true] at hmask
    rw [hmask]
    simp

/-! ## The whole vector -/

/-- The hart when the handler is entered: the `jal` has left its return address. -/
def calledFrom (returnAddress : Word) (s : Vm) : Vm :=
  { s with hart := s.hart.setReg REG_RA returnAddress }

/-- The handler returns from the call the vector makes. -/
def Returns (returnAddress : Word) (handler : VmM Unit) (s : Vm) : Prop :=
  ∀ c, EntryInstr.runAll fwTrapEntry s = .ok () c →
    isOk (handler (calledFrom returnAddress c)) = true

/-- A pass through the vector from `s` to `t`, with the handler run on `c` and ending in `u`. -/
structure Passed (top : Word) (s t c u : Vm) (frame frame' : TrapFrame) : Prop where
  handled : Handled frame c frame' u
  called : c = { s with
    hart := { s.hart with registers := c.hart.registers }
    bootrom := { s.bootrom with bytes := c.bootrom.bytes } }
  saved : ∀ register, register ≠ 0 → frame register = s.hart.registers register
  restored : ∀ register, register ≠ 0 → t.hart.registers register = frame' register
  left : ∃ registers bytes, t = { u with
    hart := Hart.returnFromMmode { u.hart with
      registers := registers
      csrBlob := Function.update u.hart.csrBlob CSR_ADDRESS_MSCRATCH top }
    bootrom := { u.bootrom with bytes := bytes } }

theorem namesHarts_congr {frame frame' : TrapFrame} {s t : Vm}
    (hframe : ∀ register, register ≠ 0 → frame' register = frame register)
    (hharts : t.clint.nrHarts = s.clint.nrHarts) (h : NamesHarts frame s) : NamesHarts frame' t := by
  unfold NamesHarts
  rw [hframe REG_A7 (by decide), hframe REG_A6 (by decide), hframe REG_A0 (by decide),
    hframe REG_A1 (by decide), hharts]
  exact h

theorem entered_calledFrom {top : Word} {s c : Vm} (h : Entered top s c) (returnAddress : Word) :
    Entered top s (calledFrom returnAddress c) where
  rest := by
    unfold calledFrom
    rw [h.rest]
    rfl
  size := h.size
  sp := by
    show Function.update c.hart.registers REG_RA returnAddress REG_SP = _
    rw [Function.update_of_ne (by decide), h.sp]
  a0 := by
    show Function.update c.hart.registers REG_RA returnAddress REG_A0 = _
    rw [Function.update_of_ne (by decide), h.a0]
  saved := h.saved

/-- Between the trap and the call, only registers and bytes of ROM have changed. -/
theorem entered_called {top : Word} {s c : Vm} (h : Entered top s c) :
    c = { s with
      hart := { s.hart with registers := c.hart.registers }
      bootrom := { s.bootrom with bytes := c.bootrom.bytes } } := by
  have hrom : c.bootrom = { s.bootrom with bytes := c.bootrom.bytes } := by
    show c.bootrom = ⟨c.bootrom.bytes, s.bootrom.size⟩
    rw [← h.size]
  conv_lhs => rw [h.rest, hrom]

theorem entered_onRom {top : Word} {s c : Vm} (h : Entered top s c) (hs : OnRom s) : OnRom c := by
  rw [h.rest]
  exact ⟨hs.pmrOps, hs.machine, h.size.trans hs.size⟩

theorem entered_platform {top : Word} {s c : Vm} (h : Entered top s c) (hp : Platform s) :
    Platform c := by
  rw [h.rest]
  exact ⟨hp.pmrOps, hp.clintBase, hp.hartId⟩

section Vector

variable {handler : VmM Unit} {top : Word} (hcompiled : Compiled top handler)
variable {s : Vm} (hp : Platform s) (hs : OnRom s)
variable (hcause : machineCause s ∈ handledCauses)
variable (hnames : machineCause s = CAUSE_SUPERVISOR_ECALL → NamesHarts s.hart.registers s)
include hcompiled hp hs hcause hnames

/-- The call of the handler, from its entry to its return. -/
theorem handler_spec {c d : Vm} (hentered : Entered top s c) (hreturn : handler c = .ok () d) :
    ∃ u, Handled (frameAt c (frameBase top)) c (frameAt d (frameBase top)) u ∧
      d = { u with
        hart := { u.hart with registers := d.hart.registers }
        bootrom := { u.bootrom with bytes := d.bootrom.bytes } } ∧
      d.hart.registers REG_SP = frameBase top ∧ OnRom d ∧ d.hart.status = s.hart.status := by
  have honRom := entered_onRom hentered hs
  have hplatform := entered_platform hentered hp
  have hcallCause : machineCause c = machineCause s := by
    rw [hentered.rest]
    rfl
  have hharts : c.clint.nrHarts = s.clint.nrHarts := by
    rw [hentered.rest]
  have hstatus : c.hart.status = s.hart.status := by
    rw [hentered.rest]
  obtain ⟨hpreserved, u, hsource, hd⟩ := hcompiled c d hplatform honRom hentered.sp hentered.a0 hreturn
  rw [hentered.a0] at hsource
  have hhandled : Wp (fwTrapHandler (frameAt c (frameBase top)))
      (Handled (frameAt c (frameBase top)) c) Never c :=
    fwTrapHandler_spec hplatform honRom.machine fun h =>
      namesHarts_congr hentered.saved hharts (hnames (hcallCause.symm.trans h))
  rw [wp_of_ok hsource] at hhandled
  have hspares := handled_spares hhandled (by rw [hcallCause]; exact hcause)
  refine ⟨u, hhandled, hd, ?_, ?_, ?_⟩
  · exact (hpreserved REG_SP (by decide)).trans hentered.sp
  · rw [hd]
    refine ⟨hspares.pmrOps.trans honRom.pmrOps, hspares.privilegeLevel.trans honRom.machine, ?_⟩
    show u.bootrom.size = 0x400000
    rw [hspares.bootrom]
    exact honRom.size
  · rw [hd]
    exact hspares.status.trans hstatus

theorem fwTrapVector_spec (htop : StackTop top)
    (hscratch : s.hart.csrBlob CSR_ADDRESS_MSCRATCH = top)
    (hmpp : s.hart.status.mpp = PRIVILEGE_LEVEL_USER ∨
      s.hart.status.mpp = PRIVILEGE_LEVEL_SUPERVISOR ∨
      s.hart.status.mpp = PRIVILEGE_LEVEL_MACHINE)
    {returnAddress : Word} (hreturns : Returns returnAddress handler s) :
    ∃ t c u frame frame', fwTrapVector returnAddress handler s = .ok () t ∧
      Passed top s t c u frame frame' := by
  have hentry := fwTrapEntry_spec htop hs hscratch
  cases hrun : EntryInstr.runAll fwTrapEntry s with
  | error e c =>
      rw [wp_of_error hrun] at hentry
      exact hentry.elim
  | ok _ c =>
      rw [wp_of_ok hrun] at hentry
      have hentered := entered_calledFrom hentry returnAddress
      obtain ⟨_, hreturn⟩ := eq_ok_of_isOk (hreturns c hrun)
      generalize finalState (handler (calledFrom returnAddress c)) = d at hreturn
      obtain ⟨u, hhandled, hd, hdsp, hdrom, hdstatus⟩ :=
        handler_spec hcompiled hp hs hcause hnames hentered hreturn
      have hexit := fwTrapExit_spec htop hdrom hdsp (by rw [hdstatus]; exact hmpp)
      cases hleave : EntryInstr.runAll fwTrapExit d with
      | error e t =>
          rw [wp_of_error hleave] at hexit
          exact hexit.elim
      | ok _ t =>
          rw [wp_of_ok hleave] at hexit
          obtain ⟨v, hleft, ht⟩ := hexit
          refine ⟨t, calledFrom returnAddress c, u, _, _, ?_, hhandled, entered_called hentered,
            hentered.saved, ?_, v.hart.registers, d.bootrom.bytes, ?_⟩
          · unfold fwTrapVector
            rw [bind_apply_ok hrun]
            show (do handler; EntryInstr.runAll fwTrapExit : VmM Unit) (calledFrom returnAddress c) = _
            rw [bind_apply_ok hreturn, hleave]
          · intro register hnonzero
            have hregs : t.hart.registers = v.hart.registers := by
              rw [ht]
              unfold Hart.returnFromMmode
              rw [flushOnChange_frame]
              rfl
            rw [hregs]
            exact hleft.loaded register hnonzero
          · rw [ht, hleft.rest, hd]

end Vector

/-! ## From the trap to the return -/

/-- The CSR file right after a machine trap. -/
def trappedBlob (h : Hart) (cause tval : Word) : CsrAddress → Word :=
  Function.update (Function.update (Function.update h.csrBlob CSR_ADDRESS_MCAUSE cause)
    CSR_ADDRESS_MTVAL tval) CSR_ADDRESS_MEPC h.pc

theorem trapped_eq (s : Vm) (cause tval : Word) :
    ∃ pc pcMappings translationCachePtr,
      TrapNesting.trapped s PRIVILEGE_LEVEL_MACHINE cause tval = { s with
        hart := { s.hart with
          csrBlob := trappedBlob s.hart cause tval
          status := { s.hart.status with
            mpp := s.hart.privilegeLevel, mpie := s.hart.status.mie, mie := false }
          privilegeLevel := PRIVILEGE_LEVEL_MACHINE
          pc := pc, pcMappings := pcMappings, translationCachePtr := translationCachePtr } } := by
  unfold TrapNesting.trapped Hart.takeTrap
  rw [flushOnChange_frame]
  exact ⟨_, _, _, rfl⟩

theorem returnFromMmode_eq (h : Hart) :
    ∃ pcMappings translationCachePtr, h.returnFromMmode = { h with
      privilegeLevel := h.status.mpp
      status := { h.status with
        mpp := PRIVILEGE_LEVEL_USER, mie := h.status.mpie, mpie := true }
      pc := h.csrBlob CSR_ADDRESS_MEPC
      pcMappings := pcMappings, translationCachePtr := translationCachePtr } := by
  unfold Hart.returnFromMmode
  rw [flushOnChange_frame]
  exact ⟨_, _, rfl⟩

/--
Nothing but the trap and the return: the registers, the pc, the trap's own CSRs,
the bits of the status that `mret` leaves behind, the translation cache and the
ROM that holds the stack.
-/
structure OnlyTrapped (s t : Vm) : Prop where
  rest : t = { s with
    hart := { s.hart with
      registers := t.hart.registers, pc := t.hart.pc, csrBlob := t.hart.csrBlob
      status := t.hart.status, pcMappings := t.hart.pcMappings
      translationCachePtr := t.hart.translationCachePtr }
    bootrom := { s.bootrom with bytes := t.bootrom.bytes } }
  csrBlob : ∀ address, address ∉ trapRegisters → t.hart.csrBlob address = s.hart.csrBlob address
  status : t.hart.status = { s.hart.status with mpp := PRIVILEGE_LEVEL_USER, mpie := true }

/-- What the interrupted code finds in `t` where it was interrupted in `s`. -/
structure Transparent (top cause : Word) (s t : Vm) : Prop where
  mscratch : t.hart.csrBlob CSR_ADDRESS_MSCRATCH = top
  privilegeLevel : t.hart.privilegeLevel = s.hart.privilegeLevel
  supervisor : ∀ address csr, csrEntryAt address = some csr → SupervisorLevel address →
    address ≠ CSR_ADDRESS_SIP → readValue csr t = readValue csr s
  sip : readValue sipCsrEntry t &&& ~~~meant cause s.hart.registers =
    readValue sipCsrEntry s &&& ~~~meant cause s.hart.registers
  interrupt : cause ≠ CAUSE_SUPERVISOR_ECALL → t.hart.pc = s.hart.pc ∧
    ∀ register, register ≠ 0 → t.hart.registers register = s.hart.registers register
  ecall : cause = CAUSE_SUPERVISOR_ECALL → t.hart.pc = s.hart.pc + 4 ∧
    ∀ register, register ≠ 0 → register ≠ REG_A0 →
      (register = REG_A1 → s.hart.registers REG_A7 ≤ SBI_EXT_LEGACY_SHUTDOWN) →
      t.hart.registers register = s.hart.registers register
  unsupported : cause = CAUSE_SUPERVISOR_ECALL → ¬Supported s.hart.registers →
    t.hart.registers REG_A0 = SBI_ERR_NOT_SUPPORTED ∧ t.hart.registers REG_A1 = 0 ∧
      OnlyTrapped s t

section Assembly

variable {top cause tval : Word} {s t c u : Vm} {frame frame' : TrapFrame}
variable (hpassed : Passed top (TrapNesting.trapped s PRIVILEGE_LEVEL_MACHINE cause tval) t c u
  frame frame')
include hpassed

/-- The state the handler is called in, told from the interrupted one. -/
theorem called_facts :
    machineCause c = cause ∧ c.hart.csrBlob CSR_ADDRESS_MEPC = s.hart.pc ∧
      (∀ address, address ∉ trapRegisters → c.hart.csrBlob address = s.hart.csrBlob address) ∧
      c.hart.status = { s.hart.status with
        mpp := s.hart.privilegeLevel, mpie := s.hart.status.mie, mie := false } ∧
      c.hart.ienable = s.hart.ienable ∧ c.hart.ipending = s.hart.ipending ∧
      ∀ register, register ≠ 0 → frame register = s.hart.registers register := by
  obtain ⟨pc, pcMappings, ptr, htrapped⟩ := trapped_eq s cause tval
  have hcalled := hpassed.called
  have hsaved := hpassed.saved
  rw [htrapped] at hcalled hsaved
  have hblob : c.hart.csrBlob = trappedBlob s.hart cause tval := by rw [hcalled]
  refine ⟨?_, ?_, ?_, ?_, ?_, ?_, hsaved⟩
  · unfold machineCause
    rw [hblob]
    rfl
  · rw [hblob]
    rfl
  · intro address hnot
    simp only [trapRegisters, List.mem_cons, List.not_mem_nil, or_false, not_or] at hnot
    rw [hblob]
    unfold trappedBlob
    rw [Function.update_of_ne hnot.2.2.1, Function.update_of_ne hnot.2.1,
      Function.update_of_ne hnot.1]
  · rw [hcalled]
  · rw [hcalled]
  · rw [hcalled]

/-- The state the vector returns to, told from the one the handler leaves. -/
theorem returned_facts :
    t.hart.csrBlob = Function.update u.hart.csrBlob CSR_ADDRESS_MSCRATCH top ∧
      t.hart.pc = u.hart.csrBlob CSR_ADDRESS_MEPC ∧
      t.hart.privilegeLevel = u.hart.status.mpp ∧
      t.hart.status = { u.hart.status with
        mpp := PRIVILEGE_LEVEL_USER, mie := u.hart.status.mpie, mpie := true } ∧
      t.hart.ienable = u.hart.ienable ∧ t.hart.ipending = u.hart.ipending := by
  obtain ⟨registers, bytes, hleft⟩ := hpassed.left
  obtain ⟨pcMappings, ptr, hreturn⟩ := returnFromMmode_eq { u.hart with
    registers := registers
    csrBlob := Function.update u.hart.csrBlob CSR_ADDRESS_MSCRATCH top }
  rw [hreturn] at hleft
  rw [hleft]
  refine ⟨rfl, ?_, rfl, rfl, rfl, rfl⟩
  show Function.update u.hart.csrBlob CSR_ADDRESS_MSCRATCH top CSR_ADDRESS_MEPC = _
  rw [Function.update_of_ne (by decide)]

theorem meant_congr : meant cause frame = meant cause s.hart.registers := by
  obtain ⟨-, -, -, -, -, -, hsaved⟩ := called_facts hpassed
  unfold meant requests frameDeadline
  rw [hsaved REG_A7 (by decide), hsaved REG_A6 (by decide), hsaved REG_A1 (by decide),
    hsaved REG_A0 (by decide)]

/-- Neither the status nor the CSR file keeps more of the trap than the trap's own part. -/
theorem kept_passed (hcause : cause ∈ handledCauses) :
    t.hart.status = { s.hart.status with mpp := PRIVILEGE_LEVEL_USER, mpie := true } ∧
      ∀ address, address ∉ trapRegisters → t.hart.csrBlob address = s.hart.csrBlob address := by
  obtain ⟨hfound, -, hblob, hstatus, -, -, -⟩ := called_facts hpassed
  obtain ⟨hblob', -, -, hstatus', -, -⟩ := returned_facts hpassed
  have hspares := handled_spares hpassed.handled (by rw [hfound]; exact hcause)
  constructor
  · rw [hstatus', hspares.status, hstatus]
  · intro address hnot
    have hne : address ≠ CSR_ADDRESS_MSCRATCH ∧ address ≠ CSR_ADDRESS_MEPC := by
      simp only [trapRegisters, List.mem_cons, List.not_mem_nil, or_false, not_or] at hnot
      exact ⟨hnot.2.2.2, hnot.2.2.1⟩
    rw [hblob', Function.update_of_ne hne.1, hspares.csrBlob address hne.2]
    exact hblob address hnot

theorem sameView_passed (hcause : cause ∈ handledCauses) :
    SameView (meant cause s.hart.registers) s t := by
  obtain ⟨hfound, -, -, -, henable, hpending, -⟩ := called_facts hpassed
  obtain ⟨-, -, -, -, henable', hpending'⟩ := returned_facts hpassed
  obtain ⟨hfinal, hblob⟩ := kept_passed hpassed hcause
  have hspares := handled_spares hpassed.handled (by rw [hfound]; exact hcause)
  rw [hfound, meant_congr hpassed] at hspares
  refine ⟨hblob, ?_, ?_, ?_, ?_, ?_, ?_, ?_⟩
  · rw [hfinal]
  · rw [hfinal]
  · rw [hfinal]
  · rw [hfinal]
  · rw [hfinal]
  · intro i hi
    rw [henable', hspares.ienable i hi, henable]
  · intro i hi hbit
    rw [hpending', hspares.ipending i hi hbit, hpending]

theorem interrupt_passed (hne : cause ≠ CAUSE_SUPERVISOR_ECALL) :
    t.hart.pc = s.hart.pc ∧
      ∀ register, register ≠ 0 → t.hart.registers register = s.hart.registers register := by
  obtain ⟨hfound, hmepc, -, -, -, -, hsaved⟩ := called_facts hpassed
  obtain ⟨-, hpc, -⟩ := returned_facts hpassed
  have hrestored := hpassed.restored
  cases hpassed.handled with
  | timer | software =>
      refine ⟨hpc.trans hmepc, fun register hnonzero => ?_⟩
      rw [hrestored register hnonzero, hsaved register hnonzero]
  | ecall cause => exact absurd (hfound.symm.trans cause) hne

theorem ecall_passed (hcause : cause = CAUSE_SUPERVISOR_ECALL) :
    ∃ v, Served frame c frame' v ∧ u = { v with
      hart := v.hart.setCsrBlob CSR_ADDRESS_MEPC (s.hart.pc + 4) } := by
  obtain ⟨hfound, hmepc, -⟩ := called_facts hpassed
  rw [hcause] at hfound
  cases hpassed.handled with
  | timer interrupt _ =>
      rw [hfound] at interrupt
      exact absurd interrupt (by decide)
  | software interrupt _ =>
      rw [hfound] at interrupt
      exact absurd interrupt (by decide)
  | @ecall _ v _ served => exact ⟨v, served, by rw [hmepc]⟩

theorem supported_congr : Supported frame ↔ Supported s.hart.registers := by
  obtain ⟨-, -, -, -, -, -, hsaved⟩ := called_facts hpassed
  unfold Supported
  rw [hsaved REG_A7 (by decide), hsaved REG_A6 (by decide)]

theorem onlyTrapped_passed (hcause : cause ∈ handledCauses)
    (hu : u = { c with hart := c.hart.setCsrBlob CSR_ADDRESS_MEPC (s.hart.pc + 4) }) :
    OnlyTrapped s t := by
  obtain ⟨hstatus, hblob⟩ := kept_passed hpassed hcause
  refine ⟨?_, hblob, hstatus⟩
  obtain ⟨pc, pcMappings, ptr, htrapped⟩ := trapped_eq s cause tval
  have hcalled := hpassed.called
  obtain ⟨registers, bytes, hleft⟩ := hpassed.left
  obtain ⟨pcMappings', ptr', hreturn⟩ := returnFromMmode_eq { u.hart with
    registers := registers
    csrBlob := Function.update u.hart.csrBlob CSR_ADDRESS_MSCRATCH top }
  rw [hreturn, hu, hcalled, htrapped] at hleft
  rw [hleft]
  rfl

/-- What a call leaves in the registers. -/
theorem ecall_registers (hcause : cause = CAUSE_SUPERVISOR_ECALL) :
    (∀ register, register ≠ 0 → register ≠ REG_A0 →
      (register = REG_A1 → s.hart.registers REG_A7 ≤ SBI_EXT_LEGACY_SHUTDOWN) →
      t.hart.registers register = s.hart.registers register) ∧
    (¬Supported s.hart.registers →
      t.hart.registers REG_A0 = SBI_ERR_NOT_SUPPORTED ∧ t.hart.registers REG_A1 = 0 ∧
        OnlyTrapped s t) := by
  obtain ⟨-, -, -, -, -, -, hsaved⟩ := called_facts hpassed
  obtain ⟨v, served, hu⟩ := ecall_passed hpassed hcause
  have hid := hsaved REG_A7 (by decide)
  constructor
  · intro register hnonzero ha0 ha1
    rw [hpassed.restored register hnonzero, ← hsaved register hnonzero]
    by_cases hlegacy : frame REG_A7 ≤ SBI_EXT_LEGACY_SHUTDOWN
    · obtain ⟨ret, hframe⟩ := served.legacy hlegacy
      rw [hframe, Function.update_of_ne ha0]
    · obtain ⟨error, value, hframe⟩ := served.modern hlegacy
      have hne : register ≠ REG_A1 := fun h => hlegacy (hid ▸ ha1 h)
      rw [hframe, Function.update_of_ne hne, Function.update_of_ne ha0]
  · intro hnot
    obtain ⟨hv, hframe⟩ := served.unsupported (fun h => hnot ((supported_congr hpassed).mp h))
    refine ⟨?_, ?_, ?_⟩
    · rw [hpassed.restored REG_A0 (by decide), hframe, Function.update_of_ne (by decide),
        Function.update_self]
    · rw [hpassed.restored REG_A1 (by decide), hframe, Function.update_self]
    · rw [hv] at hu
      exact onlyTrapped_passed hpassed (by rw [hcause]; decide) hu

theorem ecall_pc (hcause : cause = CAUSE_SUPERVISOR_ECALL) : t.hart.pc = s.hart.pc + 4 := by
  obtain ⟨-, hpc, -⟩ := returned_facts hpassed
  obtain ⟨v, -, hu⟩ := ecall_passed hpassed hcause
  rw [hpc, hu]
  show Function.update v.hart.csrBlob CSR_ADDRESS_MEPC (s.hart.pc + 4) CSR_ADDRESS_MEPC = _
  rw [Function.update_self]

theorem transparent_passed (hcause : cause ∈ handledCauses) : Transparent top cause s t := by
  obtain ⟨hfound, -, -, hstatus, -⟩ := called_facts hpassed
  obtain ⟨hblob, -, hlevel, -⟩ := returned_facts hpassed
  have hview := sameView_passed hpassed hcause
  have hspares := handled_spares hpassed.handled (by rw [hfound]; exact hcause)
  refine ⟨?_, ?_, fun address csr => readValue_of_sameView hview, sip_of_sameView hview,
    interrupt_passed hpassed, fun h => ⟨ecall_pc hpassed h, (ecall_registers hpassed h).1⟩,
    fun h => (ecall_registers hpassed h).2⟩
  · rw [hblob, Function.update_self]
  · rw [hlevel, hspares.status, hstatus]

end Assembly

/-- The firmware's traps are transparent to the code they interrupt. -/
theorem trap_transparent {handler : VmM Unit} {top : Word} (hcompiled : Compiled top handler)
    (htop : StackTop top) {s : Vm} (hp : Platform s) (hrom : s.bootrom.size = 0x400000)
    (hlevel : s.hart.privilegeLevel = PRIVILEGE_LEVEL_USER ∨
      s.hart.privilegeLevel = PRIVILEGE_LEVEL_SUPERVISOR)
    (hscratch : s.hart.csrBlob CSR_ADDRESS_MSCRATCH = top) {cause : Word}
    (hcause : cause ∈ handledCauses)
    (hnames : cause = CAUSE_SUPERVISOR_ECALL → NamesHarts s.hart.registers s) {tval : Word}
    {returnAddress : Word}
    (hreturns : Returns returnAddress handler
      (TrapNesting.trapped s PRIVILEGE_LEVEL_MACHINE cause tval)) :
    ∃ t, fwTrapVector returnAddress handler
        (TrapNesting.trapped s PRIVILEGE_LEVEL_MACHINE cause tval) = .ok () t ∧
      Transparent top cause s t := by
  obtain ⟨pc, pcMappings, ptr, htrapped⟩ := trapped_eq s cause tval
  have hcause' : machineCause (TrapNesting.trapped s PRIVILEGE_LEVEL_MACHINE cause tval) = cause := by
    rw [htrapped]
    rfl
  have hplatform : Platform (TrapNesting.trapped s PRIVILEGE_LEVEL_MACHINE cause tval) := by
    rw [htrapped]
    exact ⟨hp.pmrOps, hp.clintBase, hp.hartId⟩
  have honRom : OnRom (TrapNesting.trapped s PRIVILEGE_LEVEL_MACHINE cause tval) := by
    rw [htrapped]
    exact ⟨hp.pmrOps, rfl, hrom⟩
  have hpassed := fwTrapVector_spec hcompiled hplatform honRom (by rw [hcause']; exact hcause)
    (by
      rw [hcause', htrapped]
      exact hnames)
    htop
    (by
      rw [htrapped]
      exact hscratch)
    (by
      rw [htrapped]
      exact hlevel.elim .inl fun h => .inr (.inl h))
    hreturns
  obtain ⟨t, c, u, frame, frame', hrun, hpassed⟩ := hpassed
  exact ⟨t, hrun, transparent_passed hpassed hcause⟩

/-! ## A handler and a trap -/

def storeFrame (address : Word) (frame : TrapFrame) : List RegIndex → Vm → Vm
  | [], vm => vm
  | register :: registers, vm =>
      storeFrame address frame registers
        (setRomWord vm (address.toNat + 4 * register.toNat) (frame register))

theorem storeFrame_spec (address : Word) (frame : TrapFrame) (registers : List RegIndex) (vm : Vm) :
    (∃ bytes, storeFrame address frame registers vm =
      { vm with bootrom := { vm.bootrom with bytes := bytes } }) ∧
    ∀ register, frameAt (storeFrame address frame registers vm) address register =
      if register ∈ registers then frame register else frameAt vm address register := by
  induction registers generalizing vm with
  | nil => exact ⟨⟨vm.bootrom.bytes, rfl⟩, fun _ => rfl⟩
  | cons register registers ih =>
      obtain ⟨⟨bytes, hrest⟩, hslots⟩ :=
        ih (setRomWord vm (address.toNat + 4 * register.toNat) (frame register))
      refine ⟨⟨bytes, hrest⟩, fun other => ?_⟩
      rw [storeFrame, hslots other, frameAt_setRomWord]
      exact ite_mem_update ..

/-- The source of the handler on a frame in memory, with every register handed back. -/
def sourceHandler : VmM Unit := do
  let vm ← get
  let address := vm.hart.registers REG_A0
  let frame ← fwTrapHandler (frameAt vm address)
  modify (storeFrame address frame (0 :: REG_SP :: savedRegisters))
  modifyHart fun h => { h with registers := vm.hart.registers }

theorem compiled_sourceHandler (top : Word) : Compiled top sourceHandler := by
  intro s t _ _ _ _ hrun
  let address := s.hart.registers REG_A0
  unfold sourceHandler at hrun
  rw [bind_apply_ok (get_apply s)] at hrun
  cases hsource : fwTrapHandler (frameAt s address) s with
  | error e u =>
      rw [bind_apply_error hsource] at hrun
      cases hrun
  | ok frame u =>
      rw [bind_apply_ok hsource] at hrun
      cases hrun
      obtain ⟨⟨bytes, hrest⟩, hslots⟩ :=
        storeFrame_spec address frame (0 :: REG_SP :: savedRegisters) u
      have hall : ∀ register : RegIndex, register ∈ 0 :: REG_SP :: savedRegisters := by decide
      refine ⟨fun _ _ => rfl, u, ?_, ?_⟩
      · rw [hsource]
        congr 1
        funext register
        exact ((hslots register).trans (if_pos (hall register))).symm
      · show { storeFrame address frame (0 :: REG_SP :: savedRegisters) u with
          hart := { (storeFrame address frame (0 :: REG_SP :: savedRegisters) u).hart with
            registers := s.hart.registers } } = _
        rw [hrest]

/-- The boot machine in supervisor mode, about to call an extension the firmware lacks. -/
def callingVm : Vm :=
  let vm := virtualMachineInit (fun _ => 0) fun _ => 0
  { vm with
    hart := { (vm.hart.setReg REG_A7 0x1234).setCsrBlob CSR_ADDRESS_MSCRATCH 0x8000 with
      privilegeLevel := PRIVILEGE_LEVEL_SUPERVISOR } }

def callingTrap : Vm :=
  TrapNesting.trapped callingVm PRIVILEGE_LEVEL_MACHINE CAUSE_SUPERVISOR_ECALL 0

theorem fwTrapHandler_unknown {frame : TrapFrame} {s : Vm}
    (hcause : machineCause s = CAUSE_SUPERVISOR_ECALL) (hid : frame REG_A7 = 0x1234) :
    isOk (fwTrapHandler frame s) = true := by
  have hresult : modernResult frame 0x1234 (frame REG_A6) s = .ok (SBI_ERR_NOT_SUPPORTED, 0) s := rfl
  have hdispatch : sbiDispatch frame s = .ok (Function.update (Function.update frame REG_A0
      SBI_ERR_NOT_SUPPORTED) REG_A1 0) s := by
    unfold sbiDispatch
    rw [hid, if_neg (by decide)]
    unfold sbiModernCall
    rw [bind_apply_ok hresult]
    rfl
  unfold fwTrapHandler
  rw [bind_apply_ok (readCsr_mcause s)]
  show isOk ((if machineCause s &&& 0x80000000 ≠ 0 then _
    else if machineCause s = CAUSE_SUPERVISOR_ECALL then _ else _ : VmM TrapFrame) s) = true
  rw [hcause, if_neg (by decide), if_pos rfl, bind_apply_ok hdispatch,
    bind_apply_ok (readCsr_mepc s), bind_apply_ok (writeCsr_mepc _ s)]
  rfl

theorem stackTop_calling : StackTop 0x8000 := by
  constructor <;> decide

theorem returns_callingTrap : Returns 0x5000 sourceHandler callingTrap := by
  intro c hrun
  have hentered := fwTrapEntry_spec (s := callingTrap) stackTop_calling ⟨rfl, rfl, rfl⟩ rfl
  rw [wp_of_ok hrun] at hentered
  have hcalled := entered_calledFrom hentered 0x5000
  have hcause : machineCause (calledFrom 0x5000 c) = CAUSE_SUPERVISOR_ECALL := by
    rw [hcalled.rest]
    rfl
  have hid : frameAt (calledFrom 0x5000 c) ((calledFrom 0x5000 c).hart.registers REG_A0) REG_A7 =
      0x1234 := by
    rw [hcalled.a0]
    exact hcalled.saved REG_A7 (by decide)
  obtain ⟨frame, hsource⟩ := eq_ok_of_isOk (fwTrapHandler_unknown hcause hid)
  unfold sourceHandler
  rw [bind_apply_ok (get_apply _), bind_apply_ok hsource]
  rfl

theorem trap_transparent_unknown_call :
    ∃ t, fwTrapVector 0x5000 sourceHandler callingTrap = .ok () t ∧
      Transparent 0x8000 CAUSE_SUPERVISOR_ECALL callingVm t ∧
      t.hart.registers REG_A0 = SBI_ERR_NOT_SUPPORTED := by
  have hnames : NamesHarts callingVm.hart.registers callingVm := by
    intro hid
    exact absurd hid (by decide)
  have hunknown : ¬Supported callingVm.hart.registers := by
    unfold Supported
    decide
  obtain ⟨t, hrun, htransparent⟩ := trap_transparent (compiled_sourceHandler 0x8000) stackTop_calling
    (s := callingVm) ⟨rfl, rfl, by decide⟩ rfl (.inr rfl) rfl (by decide) (fun _ => hnames)
    returns_callingTrap
  exact ⟨t, hrun, htransparent, (htransparent.unsupported rfl hunknown).1⟩

end Zelda.Proofs.TrapVector
