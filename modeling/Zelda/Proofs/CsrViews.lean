import Zelda.Proofs.CsrAccess
import Zelda.Proofs.Runs
/-!
# Supervisor views of machine registers

`sstatus`, `sie` and `sip` show part of what `mstatus`, `mie` and `mip` hold.
The masks of the last two pairs agree; `sstatus` also shows the two user bits
that the mask of `mstatus` hides.
-/

namespace Zelda.Proofs.CsrViews

open Zelda.Vmm
open Zelda.Lib.Effect
open Zelda.Proofs.Frames
open Zelda.Proofs.Callees
open Zelda.Proofs.CsrAccess
open Zelda.Proofs.Runs

/-! ## Pairs of registers -/

/-- A supervisor register, the machine register it is a view of, and the bits it exposes. -/
structure View where
  supervisor : CsrEntry
  machine : CsrEntry
  mask : Word

def statusView : View := ⟨sstatusCsrEntry, mstatusCsrEntry, 0x133⟩
def enableView : View := ⟨sieCsrEntry, mieCsrEntry, 0x222⟩
def pendingView : View := ⟨sipCsrEntry, mipCsrEntry, 0x222⟩

def views : List View := [statusView, enableView, pendingView]

/-- A read of the supervisor register is the read of the machine one, restricted. -/
def View.Agrees (view : View) (vm : Vm) : Prop :=
  readValue view.supervisor vm = readValue view.machine vm &&& view.mask

/-- Everything a register holds, without its mask. -/
def rawValue (csr : CsrEntry) (vm : Vm) : Word :=
  match csr.read with
  | some read => (read vm).1
  | none => 0

/-- The machine register holds the same outside the exposed bits. -/
def View.KeepsOutside (view : View) (s t : Vm) : Prop :=
  rawValue view.machine t &&& ~~~view.mask = rawValue view.machine s &&& ~~~view.mask

def supervisorViews : List CsrAddress := [CSR_ADDRESS_SSTATUS, CSR_ADDRESS_SIE, CSR_ADDRESS_SIP]

/-- The three supervisor registers are restricted views, and their instructions respect that. -/
def ViewsAgree (vm : Vm) : Prop :=
  (∀ view ∈ views, view.Agrees vm) ∧
    ∀ instruction, csrAddress instruction ∈ supervisorViews → ∀ view ∈ views,
      view.KeepsOutside vm (finalState (riscvGenericCsrCallback instruction vm))

/-! ## Bits in place -/

theorem getLsbD_bitInPlace (blob : Word) {n i : Nat} (hn : n < 32) :
    (bitInPlace blob n).getLsbD i = (decide (i = n) && blob.getLsbD n) := by
  rw [bitInPlace, BitVec.getLsbD_shiftLeft, BitVec.getLsbD_and, BitVec.getLsbD_ushiftRight]
  by_cases hi : i = n
  · subst hi
    simp [hn]
  · by_cases hlt : i < n
    · simp [hi, hlt]
    · have hsub : i - n ≠ 0 := by omega
      simp [hi, hsub]

theorem getLsbD_copyBit (blob value : Word) {n i : Nat} (hn : n < 32) (hi : i < 32) :
    (copyBit blob value n).getLsbD i = if i = n then value.getLsbD i else blob.getLsbD i := by
  have hmask : (1#32 <<< n).getLsbD i = (decide (n < 32) && decide (n = i)) :=
    BitVec.getLsbD_twoPow n i
  rw [copyBit, BitVec.getLsbD_or, BitVec.getLsbD_and, BitVec.getLsbD_not, hmask,
    getLsbD_bitInPlace value hn]
  by_cases hni : i = n
  · subst hni
    simp [hn]
  · simp [hni, Ne.symm hni, hi]

/-- The bits of the interrupt views. -/
theorem exposed_cases {i : Nat} (hi : i < 32) (h : (0x222 : Word).getLsbD i = true) :
    i = 1 ∨ i = 5 ∨ i = 9 := by
  revert i
  decide

/-- A blob that agrees with another outside three bits agrees outside the mask. -/
theorem and_not_exposed {blob blob' : Word}
    (h : ∀ i, i < 32 → i ≠ 1 → i ≠ 5 → i ≠ 9 → blob'.getLsbD i = blob.getLsbD i) :
    blob' &&& ~~~(0x222 : Word) = blob &&& ~~~(0x222 : Word) := by
  apply BitVec.eq_of_getLsbD_eq
  intro i hi
  rw [BitVec.getLsbD_and, BitVec.getLsbD_and, BitVec.getLsbD_not]
  by_cases hmask : (0x222 : Word).getLsbD i = true
  · simp only [hmask, Bool.not_true, Bool.and_false]
  · rw [h i hi]
    · rintro rfl
      exact hmask (by decide)
    · rintro rfl
      exact hmask (by decide)
    · rintro rfl
      exact hmask (by decide)

/-- A blob that agrees with another on the three bits reads the same under both masks. -/
theorem and_exposed {blob blob' : Word}
    (h : ∀ i, i = 1 ∨ i = 5 ∨ i = 9 → blob'.getLsbD i = blob.getLsbD i) :
    blob' &&& (0x222 : Word) = blob &&& (0xaaa : Word) &&& (0x222 : Word) := by
  apply BitVec.eq_of_getLsbD_eq
  intro i hi
  rw [BitVec.getLsbD_and, BitVec.getLsbD_and, BitVec.getLsbD_and]
  by_cases hmask : (0x222 : Word).getLsbD i = true
  · have hcases := exposed_cases hi hmask
    have hwide : (0xaaa : Word).getLsbD i = true := by
      rcases hcases with rfl | rfl | rfl <;> decide
    rw [h i hcases, hwide, Bool.and_true]
  · rw [Bool.not_eq_true] at hmask
    simp only [hmask, Bool.and_false]

/-! ## Interrupt views -/

theorem enableView_agrees (vm : Vm) : enableView.Agrees vm := by
  apply and_exposed
  intro i hi
  simp only [BitVec.getLsbD_or]
  repeat rw [getLsbD_bitInPlace _ (by decide)]
  rcases hi with rfl | rfl | rfl <;> simp

theorem pendingView_agrees (vm : Vm) : pendingView.Agrees vm := by
  apply and_exposed
  intro i hi
  simp only [BitVec.getLsbD_or]
  repeat rw [getLsbD_bitInPlace _ (by decide)]
  rcases hi with rfl | rfl | rfl <;> simp

/-! ## The status view -/

/-- Both user bits are clear. -/
def UserBitsClear (h : Hart) : Prop :=
  h.status.uie = false ∧ h.status.upie = false

theorem statusView_agrees_iff (vm : Vm) : statusView.Agrees vm ↔ UserBitsClear vm.hart := by
  unfold UserBitsClear
  show _ &&& _ = _ &&& _ &&& _ ↔ _
  simp only
  generalize vm.hart.status = status
  obtain ⟨uie, sie, mie, upie, spie, mpie, spp, mpp⟩ := status
  revert uie sie mie upie spie mpie spp mpp
  decide +kernel

/-- The word `mstatus` holds for a status. -/
def mstatusWord (status : Status) : Word :=
  statusBit status.uie 0 ||| statusBit status.sie 1 ||| statusBit status.mie 3 |||
    statusBit status.upie 4 ||| statusBit status.spie 5 ||| statusBit status.mpie 7 |||
    (status.spp.setWidth 32 <<< 8) ||| (status.mpp.setWidth 32 <<< 11)

theorem rawValue_mstatus (vm : Vm) : rawValue mstatusCsrEntry vm = mstatusWord vm.hart.status := rfl

/-- Outside the exposed bits `mstatus` holds the machine fields. -/
theorem statusView_outside (vm : Vm) :
    rawValue mstatusCsrEntry vm &&& ~~~statusView.mask =
      statusBit vm.hart.status.mie 3 ||| statusBit vm.hart.status.mpie 7 |||
        (vm.hart.status.mpp.setWidth 32 <<< 11) := by
  rw [rawValue_mstatus]
  generalize vm.hart.status = status
  obtain ⟨uie, sie, mie, upie, spie, mpie, spp, mpp⟩ := status
  revert uie sie mie upie spie mpie spp mpp
  decide +kernel

/-! ## Instructions on the views -/

/-- The parts of the hart that the three machine registers show. -/
structure SameSources (s t : Vm) : Prop where
  status : t.hart.status = s.hart.status
  ienable : t.hart.ienable = s.hart.ienable
  ipending : t.hart.ipending = s.hart.ipending

theorem sameSources_of_observed {s t : Vm} (h : Observed s t) : SameSources s t := by
  rw [Observed] at h
  rw [h]
  exact ⟨rfl, rfl, rfl⟩

theorem keepsOutside_of_eq {s t : Vm}
    (hstatus : t.hart.status.mie = s.hart.status.mie ∧ t.hart.status.mpie = s.hart.status.mpie ∧
      t.hart.status.mpp = s.hart.status.mpp)
    (henable : t.hart.ienable &&& ~~~(0x222 : Word) = s.hart.ienable &&& ~~~(0x222 : Word))
    (hpending : t.hart.ipending &&& ~~~(0x222 : Word) = s.hart.ipending &&& ~~~(0x222 : Word)) :
    ∀ view ∈ views, view.KeepsOutside s t := by
  intro view hview
  simp only [views, List.mem_cons, List.not_mem_nil, or_false] at hview
  rcases hview with rfl | rfl | rfl
  · unfold View.KeepsOutside
    show rawValue mstatusCsrEntry t &&& ~~~statusView.mask = _
    rw [statusView_outside, hstatus.1, hstatus.2.1, hstatus.2.2]
    exact (statusView_outside s).symm
  · exact henable
  · exact hpending

/-- A write through a view changes exposed bits only. -/
theorem keepsOutside_write {address : CsrAddress} {csr : CsrEntry} {f : Word → Vm → Vm}
    (hcsr : csrEntryAt address = some csr) (hf : csr.write = some f)
    (haddress : address ∈ supervisorViews) (value : Word) (u : Vm) :
    ∀ view ∈ views, view.KeepsOutside u (f value u) := by
  simp only [supervisorViews, List.mem_cons, List.not_mem_nil, or_false] at haddress
  rcases haddress with rfl | rfl | rfl
  · obtain rfl : sstatusCsrEntry = csr := Option.some.inj hcsr
    obtain rfl := Option.some.inj hf
    exact keepsOutside_of_eq ⟨rfl, rfl, rfl⟩ rfl rfl
  · obtain rfl : sieCsrEntry = csr := Option.some.inj hcsr
    obtain rfl := Option.some.inj hf
    refine keepsOutside_of_eq ⟨rfl, rfl, rfl⟩ (and_not_exposed fun i hi h1 h5 h9 => ?_) rfl
    show (copyBit (copyBit (copyBit u.hart.ienable value 1) value 5) value 9).getLsbD i = _
    rw [getLsbD_copyBit _ _ (by decide) hi, if_neg h9, getLsbD_copyBit _ _ (by decide) hi, if_neg h5,
      getLsbD_copyBit _ _ (by decide) hi, if_neg h1]
  · obtain rfl : sipCsrEntry = csr := Option.some.inj hcsr
    obtain rfl := Option.some.inj hf
    refine keepsOutside_of_eq ⟨rfl, rfl, rfl⟩ rfl (and_not_exposed fun i hi h1 h5 h9 => ?_)
    show (copyBit u.hart.ipending value 1).getLsbD i = _
    rw [getLsbD_copyBit _ _ (by decide) hi, if_neg h1]

theorem keepsOutside_of_sameSources {s u t : Vm} (hsame : SameSources s u) {view : View}
    (hview : view ∈ views) (h : view.KeepsOutside u t) : view.KeepsOutside s t := by
  have hraw : rawValue view.machine u = rawValue view.machine s := by
    simp only [views, List.mem_cons, List.not_mem_nil, or_false] at hview
    rcases hview with rfl | rfl | rfl
    · show rawValue mstatusCsrEntry u = rawValue mstatusCsrEntry s
      rw [rawValue_mstatus, rawValue_mstatus, hsame.status]
    · exact hsame.ienable
    · exact hsame.ipending
  unfold View.KeepsOutside at h ⊢
  rw [h, hraw]

/-- The second half of the claim holds in every state. -/
theorem keepsOutside_instruction (vm : Vm) (instruction : Word)
    (haddress : csrAddress instruction ∈ supervisorViews) :
    ∀ view ∈ views, view.KeepsOutside vm (finalState (riscvGenericCsrCallback instruction vm)) := by
  intro view hview
  have hspec := riscvGenericCsrCallback_spec instruction vm
  cases hrun : riscvGenericCsrCallback instruction vm with
  | error e t =>
      rw [wp_of_error hrun] at hspec
      rw [finalState_error, hspec.2]
      rfl
  | ok a t =>
      rw [wp_of_ok hrun] at hspec
      rw [finalState_ok]
      obtain ⟨csr, hcsr, heffect⟩ := hspec
      cases heffect with
      | read observed =>
          exact keepsOutside_of_sameSources (sameSources_of_observed observed) hview rfl
      | write observed callback =>
          exact keepsOutside_of_sameSources (sameSources_of_observed observed) hview
            (keepsOutside_write hcsr callback haddress _ _ view hview)

theorem viewsAgree_iff (vm : Vm) : ViewsAgree vm ↔ UserBitsClear vm.hart := by
  constructor
  · intro h
    exact (statusView_agrees_iff vm).mp (h.1 statusView List.mem_cons_self)
  · intro h
    refine ⟨fun view hview => ?_, keepsOutside_instruction vm⟩
    simp only [views, List.mem_cons, List.not_mem_nil, or_false] at hview
    rcases hview with rfl | rfl | rfl
    · exact (statusView_agrees_iff vm).mpr h
    · exact enableView_agrees vm
    · exact pendingView_agrees vm

/-! ## Runs -/

/-- What a run interleaves. -/
inductive Operation
  | csr (instruction : Word)
  | trap (level : BitVec 2) (cause tval : Word)
  | mret
  | sret
  /-- What other instructions leave in the registers. -/
  | setReg (index : RegIndex) (value : Word)

def Operation.run : Operation → VmM Unit
  | .csr instruction => riscvGenericCsrCallback instruction
  | .trap level cause tval => raiseTrapRaw level cause tval
  | .mret => mretCallback
  | .sret => sretCallback
  | .setReg index value => modifyHart fun h => h.setReg index value

/-- The two bits that `sstatus` shows and `mstatus` hides. -/
def userBits : Word := 0x11

/-- An instruction on `sstatus` that would set one of the two bits. -/
def SetsUserBits (vm : Vm) : Operation → Prop
  | .csr instruction => csrAddress instruction = CSR_ADDRESS_SSTATUS ∧
      combined instruction sstatusCsrEntry vm &&& userBits ≠ 0
  | _ => False

/-- The states of the runs from power-on whose operations are all allowed where they happen. -/
inductive Reached (allowed : Vm → Operation → Prop) : Vm → Prop
  | start {vm : Vm} (reset : SameControl initialHart vm.hart) : Reached allowed vm
  | step {vm : Vm} (op : Operation) (reached : Reached allowed vm) (ok : allowed vm op) :
      Reached allowed (finalState (op.run vm))

theorem getLsbD_of_and_userBits {value : Word} (h : value &&& userBits = 0) :
    value.getLsbD 0 = false ∧ value.getLsbD 4 = false := by
  have hbit : ∀ i, i < 32 → userBits.getLsbD i = true → value.getLsbD i = false := by
    intro i hi huser
    have := congrArg (fun w : Word => w.getLsbD i) h
    rw [BitVec.getLsbD_and, huser, Bool.and_true] at this
    exact this.trans BitVec.getLsbD_zero
  exact ⟨hbit 0 (by decide) (by decide), hbit 4 (by decide) (by decide)⟩

/-- Of all writes only those of `mstatus` and `sstatus` reach the status. -/
theorem userBitsClear_write {address : CsrAddress} {csr : CsrEntry} {f : Word → Vm → Vm}
    (hcsr : csrEntryAt address = some csr) (hf : csr.write = some f) {value : Word}
    (hvalue : address = CSR_ADDRESS_SSTATUS → value &&& userBits = 0) {u : Vm}
    (hu : UserBitsClear u.hart) : UserBitsClear (f (value &&& csr.wpriMask) u).hart := by
  cases csrEntryAt_kind hcsr with
  | sstatus =>
      obtain rfl := Option.some.inj hf
      obtain ⟨h0, h4⟩ := getLsbD_of_and_userBits (hvalue rfl)
      constructor
      · show (value &&& _).getLsbD 0 = false
        rw [BitVec.getLsbD_and, h0, Bool.false_and]
      · show (value &&& _).getLsbD 4 = false
        rw [BitVec.getLsbD_and, h4, Bool.false_and]
  | mstatus =>
      obtain rfl := Option.some.inj hf
      constructor
      · show (value &&& (0x19aa : Word)).getLsbD 0 = false
        rw [BitVec.getLsbD_and]
        exact Bool.and_eq_false_imp.mpr fun _ => by decide
      · show (value &&& (0x19aa : Word)).getLsbD 4 = false
        rw [BitVec.getLsbD_and]
        exact Bool.and_eq_false_imp.mpr fun _ => by decide
  | readOnly write read =>
      obtain rfl := write f hf
      exact hu
  | blob | mie | mip | mideleg | satp | sie | sip =>
      obtain rfl := Option.some.inj hf
      exact hu

theorem userBitsClear_csr {instruction : Word} {vm : Vm} (h : UserBitsClear vm.hart)
    (hspares : ¬SetsUserBits vm (.csr instruction)) :
    UserBitsClear (finalState (riscvGenericCsrCallback instruction vm)).hart := by
  have hspec := riscvGenericCsrCallback_spec instruction vm
  cases hrun : riscvGenericCsrCallback instruction vm with
  | error e t =>
      rw [wp_of_error hrun] at hspec
      rw [finalState_error, hspec.2]
      exact h
  | ok a t =>
      rw [wp_of_ok hrun] at hspec
      rw [finalState_ok]
      obtain ⟨csr, hcsr, heffect⟩ := hspec
      have hobserved : ∀ {u : Vm}, Observed vm u → UserBitsClear u.hart := by
        intro u hu
        unfold UserBitsClear
        rw [(sameSources_of_observed hu).status]
        exact h
      cases heffect with
      | read observed => exact hobserved observed
      | write observed callback =>
          refine userBitsClear_write hcsr callback (fun haddress => ?_) (hobserved observed)
          obtain rfl : sstatusCsrEntry = csr := by
            rw [haddress] at hcsr
            exact Option.some.inj hcsr
          by_contra hset
          exact hspares ⟨haddress, hset⟩

theorem leaves_userBitsClear :
    Leaves UserBitsClear (fun _ _ _ => True) (fun _ t => UserBitsClear t.hart) where
  stop _ _ _ hs := hs
  trap s level cause tval _ hs := by
    have hstatus : (s.hart.takeTrap level cause tval).status.uie = s.hart.status.uie ∧
        (s.hart.takeTrap level cause tval).status.upie = s.hart.status.upie := by
      unfold Hart.takeTrap
      rw [flushOnChange_frame]
      simp only
      split <;> exact ⟨rfl, rfl⟩
    exact ⟨hstatus.1.trans hs.1, hstatus.2.trans hs.2⟩

/-- Traps and returns move other bits of the status. -/
theorem userBitsClear_operation {vm : Vm} {op : Operation} (h : UserBitsClear vm.hart)
    (hspares : ¬SetsUserBits vm op) : UserBitsClear (finalState (op.run vm)).hart := by
  have hraise : Ends (OnHart UserBitsClear) (fun _ t => UserBitsClear t.hart)
      (raiseException EXCEPTION_ILLEEGAL_INSTRUCTION : VmM Unit) :=
    ends_raiseExceptionWithTvalue leaves_userBitsClear (by decide) (fun _ _ => trivial) 0
  cases op with
  | csr instruction => exact userBitsClear_csr h hspares
  | trap level cause tval =>
      refine Ends.finalState (ends_raiseTrapRaw leaves_userBitsClear level ?_ tval) h
      exact fun _ _ => trivial
  | mret =>
      refine Ends.finalState (I := OnHart UserBitsClear) ?_ h
      unfold Operation.run mretCallback assertHartRunningInMmode
      refine ends_bind ?_ fun _ => ?_
      · exact ends_bind ends_get fun _ => ends_ite hraise (ends_pure _)
      · refine ends_bind ends_get fun _ => ?_
        refine ends_bind (ends_assert leaves_userBitsClear _) fun _ => ends_modifyHart fun h hh => ?_
        unfold Hart.returnFromMmode
        rw [flushOnChange_frame]
        exact hh
  | sret =>
      refine Ends.finalState (I := OnHart UserBitsClear) ?_ h
      unfold Operation.run sretCallback assertHartRunningInSmode
      refine ends_bind ?_ fun _ => ?_
      · exact ends_bind ends_get fun _ => ends_ite hraise (ends_pure _)
      · refine ends_modifyHart fun h hh => ?_
        unfold Hart.returnFromSmode
        rw [flushOnChange_frame]
        exact hh
  | setReg index value => exact h

/-- As long as no instruction sets a user bit through `sstatus`, the views agree. -/
theorem views_agree_in_run {vm : Vm}
    (h : Reached (fun s op => ¬SetsUserBits s op) vm) : ViewsAgree vm := by
  rw [viewsAgree_iff]
  induction h with
  | start reset =>
      unfold UserBitsClear
      rw [reset.status]
      exact ⟨rfl, rfl⟩
  | step op _ ok ih => exact userBitsClear_operation ih ok

/-- The machine after one CSR instruction at power-on. -/
def afterInstruction (instruction : Word) : Vm :=
  finalState ((Operation.csr instruction).run (virtualMachineInit (fun _ => 0) fun _ => 0))

/-- `csrrwi x0, sstatus, 2` sets `sie` and no user bit. -/
theorem views_agree_after_sie :
    readValue sstatusCsrEntry (afterInstruction 0x10015073) = 0x2 ∧
      ViewsAgree (afterInstruction 0x10015073) := by
  refine ⟨by decide +kernel, views_agree_in_run (.step _ (.start ⟨rfl, rfl, rfl, rfl, rfl, rfl⟩) ?_)⟩
  rintro ⟨-, hset⟩
  exact absurd hset (by decide +kernel)

/-- `csrrwi x0, sstatus, 1` sets a bit that `mstatus` does not show. -/
theorem user_bit_splits_views :
    Reached (fun _ _ => True) (afterInstruction 0x1000d073) ∧
      readValue sstatusCsrEntry (afterInstruction 0x1000d073) = 0x1 ∧
      readValue mstatusCsrEntry (afterInstruction 0x1000d073) = 0 ∧
      ¬ViewsAgree (afterInstruction 0x1000d073) := by
  refine ⟨.step _ (.start ⟨rfl, rfl, rfl, rfl, rfl, rfl⟩) trivial, by decide +kernel,
    by decide +kernel, fun h => ?_⟩
  have hclear := (viewsAgree_iff _).mp h
  exact absurd hclear.1 (by decide +kernel)

end Zelda.Proofs.CsrViews
