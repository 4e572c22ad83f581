import Zelda.Proofs.Frames
import Zelda.Vmm.Init
/-!
# TLB hits against the page walk

`VA_TO_TLB_ENTRY` takes whatever valid entry stands in the slot of an address
and never compares the tag.  A hit is therefore right exactly when the entry
was put there by an access to the same page, which is decided by the addresses
touched before and the slots their leaves fall into.
-/

namespace Zelda.Proofs.TlbAgreement

open Zelda.Vmm
open Zelda.Lib.Effect
open Zelda.Proofs.PageWalk
open Zelda.Proofs.Frames

/-! ## Sequences of paged accesses -/

/-- `vmread`, `vmwrite` and `mmu_instruction_read32`. -/
inductive Access
  | read (va : Word) (size : AccessSize)
  | write (va : Word) (size : AccessSize) (value : DWord)
  | fetch (va : Word)

namespace Access

def va : Access → Word
  | read va _ => va
  | write va _ _ => va
  | fetch va => va

def side : Access → TlbSide
  | fetch _ => .itlb
  | _ => .dtlb

/-- The page fault the access raises. -/
def fault : Access → Nat
  | read .. => EXCEPTION_LOAD_PAGE_FAULT
  | write .. => EXCEPTION_STORE_PAGE_FAULT
  | fetch _ => EXCEPTION_INSTRUCTION_PAGE_FAULT

def run : Access → VmM Unit
  | read va size => do
      let _ ← vmread va size
  | write va size value => vmwrite va size value
  | fetch va => do
      let _ ← mmuInstructionRead32 va

/-- The access once its address has been translated. -/
def finish : Access → TlbEntry → VmM Unit
  | read va size, entry => do
      let _ ← entry.pmr.pmrRead (entry.physical va) size
  | write va size value, entry => entry.pmr.pmrWrite (entry.physical va) size value
  | fetch va, entry => do
      let _ ← entry.pmr.pmrRead (entry.physical va) .b4

theorem fault_lt (a : Access) : a.fault < 16 := by
  cases a with
  | read => exact (by decide : EXCEPTION_LOAD_PAGE_FAULT < 16)
  | write => exact (by decide : EXCEPTION_STORE_PAGE_FAULT < 16)
  | fetch => exact (by decide : EXCEPTION_INSTRUCTION_PAGE_FAULT < 16)

/-- With paging on, an access translates its address and then goes to the region. -/
theorem run_eq {vm : Vm} (a : Access) (hpaging : vm.hart.pagingOn = true) :
    a.run vm = (translateAddress a.side a.fault a.va >>= a.finish) vm := by
  cases a with
  | read va size =>
      unfold run vmread
      simp only [bind_apply, get_apply, hpaging, if_true, side, fault, Access.va]
      cases translateAddress .dtlb EXCEPTION_LOAD_PAGE_FAULT va vm <;> rfl
  | write va size value =>
      unfold run vmwrite
      simp only [bind_apply, get_apply, hpaging, if_true, side, fault, Access.va]
      cases translateAddress .dtlb EXCEPTION_STORE_PAGE_FAULT va vm <;> rfl
  | fetch va =>
      unfold run mmuInstructionRead32
      simp only [bind_apply, get_apply, hpaging, if_true, side, fault, Access.va]
      cases translateAddress .itlb EXCEPTION_INSTRUCTION_PAGE_FAULT va vm with
      | error e t => rfl
      | ok entry t =>
          simp only [finish, bind_apply]
          cases entry.pmr.pmrRead (entry.physical va) .b4 t <;> rfl

/-- Past translation an access keeps the hart and the region table, and only a store writes RAM. -/
theorem finish_frame (a : Access) (entry : TlbEntry) (s : Vm) :
    Wp (a.finish entry)
      (fun _ t => WriteFrame s t ∧
        ((∀ va size value, a ≠ .write va size value) → t.mainMem = s.mainMem))
      (NoTrap s) s := by
  cases a with
  | read va size =>
      unfold finish
      rw [wp_bind]
      refine wp_mono (pmrRead_frame _ _ _ s) ?_ fun _ _ h => h
      intro _ t h
      exact ⟨h.writeFrame, fun _ => by rw [h]⟩
  | write va size value =>
      refine wp_mono (pmrWrite_frame _ _ _ _ s) ?_ fun _ _ h => h
      intro _ t h
      exact ⟨h, fun hne => absurd rfl (hne va size value)⟩
  | fetch va =>
      unfold finish
      rw [wp_bind]
      refine wp_mono (pmrRead_frame _ _ _ s) ?_ fun _ _ h => h
      intro _ t h
      exact ⟨h.writeFrame, fun _ => by rw [h]⟩

end Access

/-- A place the walker reads a page-table entry from. -/
inductive TableWord (vm : Vm) : Word → Prop
  | root (va : Word) : TableWord vm (level1Address (vm.hart.csrBlob CSR_ADDRESS_SATP) va)
  | second (va level1Pte : Word)
      (read : pteAt vm (level1Address (vm.hart.csrBlob CSR_ADDRESS_SATP) va) =
        some (some level1Pte)) : TableWord vm (level2Address level1Pte va)

/-- The page tables of `vm` read the same in `vm'`. -/
def KeepsTables (vm vm' : Vm) : Prop :=
  ∀ pa, TableWord vm pa → pteAt vm' pa = pteAt vm pa

/--
One access.  A store must not touch the page tables.  A faulting access leaves
the TLBs as they were, and the sequence goes on from the state before it.
-/
inductive Step (a : Access) (vm : Vm) : Vm → Prop
  | done {vm' : Vm} (ran : a.run vm = .ok () vm')
      (stores : ∀ va size value, a = .write va size value → KeepsTables vm vm') : Step a vm vm'
  | faulted {t : Vm} (ran : a.run vm = .error .trap t) : Step a vm vm

/-- A sequence of accesses from `vm₀`, the most recent one first. -/
inductive Run (vm₀ : Vm) (Allowed : List Access → Access → Prop) : List Access → Vm → Prop
  | start : Run vm₀ Allowed [] vm₀
  | step {past : List Access} {vm vm' : Vm} {a : Access} (run : Run vm₀ Allowed past vm)
      (allowed : Allowed past a) (step : Step a vm vm') : Run vm₀ Allowed (a :: past) vm'

/-! ## What is claimed of a hit -/

/-- The entry `walk_page_table` leaves for `va` in an empty TLB. -/
def walkFromEmpty (vm : Vm) (side : TlbSide) (va : Word) : Option TlbEntry :=
  (walkPageTable vm va (vm.hart.tlb side).invalidate).bind fun (_, tlb) => tlb.vaToTlbEntry va

/-- `entry` is tagged for the address and leads where the walk leads. -/
def Agrees (vm : Vm) (a : Access) (entry : TlbEntry) : Prop :=
  entry.vaTag = a.va &&& entry.pageMask ∧
    ∃ walked, walkFromEmpty vm a.side a.va = some walked ∧
      entry.physical a.va = walked.physical a.va

/-- Every lookup the access makes agrees with the walk. -/
def HitsAgree (vm : Vm) (a : Access) : Prop :=
  (∀ entry, (vm.hart.tlb a.side).vaToTlbEntry a.va = some entry → Agrees vm a entry) ∧
    ∀ entry vm', translateAddress a.side a.fault a.va vm = .ok entry vm' → Agrees vm a entry

/-- Both TLBs are as `invalidate_tlb` leaves them. -/
def Invalidated (vm : Vm) : Prop :=
  ∀ side idx, idx < (vm.hart.tlb side).cap → ((vm.hart.tlb side).entries idx).entryValid = false

/-! ## When accesses do not meet in a slot -/

/-- `b` is an earlier access on this side whose leaf `entry` falls into `slot`. -/
structure Filler (vm₀ : Vm) (past : List Access) (side : TlbSide) (slot : Word) (b : Access)
    (entry : TlbEntry) : Prop where
  mem : b ∈ past
  side_eq : b.side = side
  walked : walkFromEmpty vm₀ side b.va = some entry
  slot_eq : leafSlot (vm₀.hart.tlb side) b.va entry.pageMask = slot

/-- `a` and `b` lie in one page, of the size of the leaf `entry` of `b`. -/
def SamePage (a b : Access) (entry : TlbEntry) : Prop :=
  a.va &&& entry.pageMask = b.va &&& entry.pageMask

/--
Every earlier access that fills the 4K slot of `a` is to the same page; and if
none fills it, so is every earlier access that fills the 4M slot of `a`.
-/
def Separated (vm₀ : Vm) (past : List Access) (a : Access) : Prop :=
  (∀ b entry, Filler vm₀ past a.side ((vm₀.hart.tlb a.side).slot4K a.va) b entry →
    SamePage a b entry) ∧
  ((∃ b entry, Filler vm₀ past a.side ((vm₀.hart.tlb a.side).slot4K a.va) b entry) ∨
    ∀ b entry, Filler vm₀ past a.side ((vm₀.hart.tlb a.side).slot4M a.va) b entry →
      SamePage a b entry)

/-! ## Slots -/

private theorem and_sub_one_lt {x cap : Word} (h : 0 < cap.toNat) : x &&& (cap - 1) < cap := by
  rw [BitVec.lt_def, BitVec.toNat_and]
  have hle : x.toNat &&& (cap - 1).toNat ≤ (cap - 1).toNat := Nat.and_le_right
  have hsub : (cap - 1).toNat = cap.toNat - 1 := by
    rw [BitVec.toNat_sub_of_le]
    · rfl
    · rw [BitVec.le_def]
      exact h
  omega

theorem slot4K_lt (tlb : Tlb) (va : Word) : tlb.slot4K va < tlb.cap :=
  and_sub_one_lt tlb.cap_pos

theorem slot4M_lt (tlb : Tlb) (va : Word) : tlb.slot4M va < tlb.cap :=
  and_sub_one_lt tlb.cap_pos

theorem leafSlot_eq_of_cap {tlb tlb' : Tlb} (h : tlb'.cap = tlb.cap) (va mask : Word) :
    leafSlot tlb' va mask = leafSlot tlb va mask := by
  simp only [leafSlot, Tlb.slot4M, Tlb.slot4K, h]

theorem vaToTlbEntry_invalidate (tlb : Tlb) (va : Word) : tlb.invalidate.vaToTlbEntry va = none := by
  rw [vaToTlbEntry_eq_none]
  have h4K : tlb.invalidate.slot4K va < tlb.cap := slot4K_lt tlb va
  have h4M : tlb.invalidate.slot4M va < tlb.cap := slot4M_lt tlb va
  simp only [Tlb.invalidate] at h4K h4M ⊢
  exact ⟨by rw [if_pos h4K], by rw [if_pos h4M]⟩

/-- Walking into an empty TLB finds the leaf. -/
theorem walkFromEmpty_eq_some {vm : Vm} {side : TlbSide} {va : Word} {entry : TlbEntry} :
    walkFromEmpty vm side va = some entry ↔ walkLeaf vm va = some (.ok entry) := by
  unfold walkFromEmpty
  rw [walkPageTable_eq]
  rcases hleaf : walkLeaf vm va with _ | (rc | leaf)
  · simp
  · simp [fill, vaToTlbEntry_invalidate]
  · have hfound := vaToTlbEntry_install (vaToTlbEntry_invalidate (vm.hart.tlb side) va)
      (walkLeaf_ok hleaf).1
    simp [fill, hfound]

/-! ## One access -/

theorem pteAt_congr {vm vm' : Vm} (hops : vm'.pmrOps = vm.pmrOps)
    (hmem : vm'.mainMem = vm.mainMem) (pa : Word) : pteAt vm' pa = pteAt vm pa := by
  simp only [pteAt, hops, hmem]

/-- A walk reads nothing but the tables, `satp` and the region table. -/
theorem walkLeaf_of_keepsTables {vm vm' : Vm} (htables : KeepsTables vm vm')
    (hcsr : vm'.hart.csrBlob = vm.hart.csrBlob) (hops : vm'.pmrOps = vm.pmrOps) (va : Word) :
    walkLeaf vm' va = walkLeaf vm va := by
  unfold walkLeaf leafAt
  simp only [hcsr, hops, htables _ (.root va)]
  split
  · rfl
  rcases hroot : pteAt vm _ with _ | _ | level1Pte
  · rfl
  · rfl
  simp only [htables _ (.second va level1Pte hroot)]

/-- What an access has done to the machine around the TLBs. -/
structure AccessFrame (vm vm' : Vm) : Prop where
  csrBlob : vm'.hart.csrBlob = vm.hart.csrBlob
  privilegeLevel : vm'.hart.privilegeLevel = vm.hart.privilegeLevel
  leaf : ∀ va, walkLeaf vm' va = walkLeaf vm va

theorem AccessFrame.refl (vm : Vm) : AccessFrame vm vm :=
  ⟨rfl, rfl, fun _ => rfl⟩

/-- What an access has done to the TLBs. -/
inductive TlbEffect (a : Access) (vm vm' : Vm) : Prop
  | hit (entry : TlbEntry) (found : (vm.hart.tlb a.side).vaToTlbEntry a.va = some entry)
      (hart_eq : vm'.hart = vm.hart)
  | filled (entry : TlbEntry) (leaf : walkLeaf vm a.va = some (.ok entry))
      (hart_eq : vm'.hart = (cached vm a.side a.va entry).hart)
  | missed (leaf : ∀ entry, walkLeaf vm a.va ≠ some (.ok entry)) (hart_eq : vm'.hart = vm.hart)

theorem csrBlob_setTlb (h : Hart) (side : TlbSide) (tlb : Tlb) :
    (h.setTlb side tlb).csrBlob = h.csrBlob := by
  cases side <;> rfl

theorem privilegeLevel_setTlb (h : Hart) (side : TlbSide) (tlb : Tlb) :
    (h.setTlb side tlb).privilegeLevel = h.privilegeLevel := by
  cases side <;> rfl

/-- An access that ran to its end, from the state `t` in which its address was translated. -/
private theorem frame_of_finish {a : Access} {vm t vm' : Vm} {entry : TlbEntry}
    (hstores : ∀ va size value, a = .write va size value → KeepsTables vm vm')
    (hcsr : t.hart.csrBlob = vm.hart.csrBlob)
    (hlevel : t.hart.privilegeLevel = vm.hart.privilegeLevel)
    (hops : t.pmrOps = vm.pmrOps) (hmem : t.mainMem = vm.mainMem)
    (hfin : a.finish entry t = .ok () vm') : AccessFrame vm vm' ∧ vm'.hart = t.hart := by
  obtain ⟨hframe, hread⟩ := (wp_of_ok hfin).mp (a.finish_frame entry t)
  have hhart : vm'.hart = t.hart := by rw [hframe]
  have hops' : vm'.pmrOps = vm.pmrOps := by rw [hframe, ← hops]
  have htables : KeepsTables vm vm' := by
    by_cases hw : ∃ va size value, a = .write va size value
    · obtain ⟨va, size, value, hw⟩ := hw
      exact hstores va size value hw
    · have hmem' : vm'.mainMem = vm.mainMem := by
        rw [hread fun va size value h => hw ⟨va, size, value, h⟩, hmem]
      exact fun pa _ => pteAt_congr hops' hmem' pa
  have hcsr' : vm'.hart.csrBlob = vm.hart.csrBlob := by rw [hhart, hcsr]
  exact ⟨⟨hcsr', by rw [hhart, hlevel], walkLeaf_of_keepsTables htables hcsr' hops'⟩, hhart⟩

/-- Everything a step can do. -/
theorem step_cases {a : Access} {vm vm' : Vm} (hpaging : vm.hart.pagingOn = true)
    (h : Step a vm vm') : AccessFrame vm vm' ∧ TlbEffect a vm vm' := by
  have htranslate := translateAddress_apply a.side a.fault_lt a.va vm
  cases h with
  | done ran stores =>
      rw [a.run_eq hpaging] at ran
      cases hlook : (vm.hart.tlb a.side).vaToTlbEntry a.va with
      | some entry =>
          rw [hlook] at htranslate
          rw [bind_apply_ok htranslate] at ran
          obtain ⟨hframe, hhart⟩ := frame_of_finish stores rfl rfl rfl rfl ran
          exact ⟨hframe, .hit entry hlook hhart⟩
      | none =>
          rw [hlook] at htranslate
          rcases hleaf : walkLeaf vm a.va with _ | (rc | entry)
          · simp only [hleaf] at htranslate
            rw [bind_apply_error htranslate] at ran
            cases ran
          · simp only [hleaf] at htranslate
            rw [bind_apply_error htranslate] at ran
            cases ran
          · simp only [hleaf] at htranslate
            rw [bind_apply_ok htranslate] at ran
            have hcsr := csrBlob_setTlb vm.hart a.side
            have hlevel := privilegeLevel_setTlb vm.hart a.side
            obtain ⟨hframe, hhart⟩ := frame_of_finish (t := cached vm a.side a.va entry) stores
              (hcsr _) (hlevel _) rfl rfl ran
            exact ⟨hframe, .filled entry hleaf hhart⟩
  | faulted ran =>
      refine ⟨.refl vm, ?_⟩
      cases hlook : (vm.hart.tlb a.side).vaToTlbEntry a.va with
      | some entry => exact .hit entry hlook rfl
      | none =>
          refine .missed (fun entry hleaf => ?_) rfl
          -- A region callback does not trap, so the trap came from the walk.
          simp only [hlook, hleaf] at htranslate
          rw [a.run_eq hpaging, bind_apply_ok htranslate] at ran
          exact ((wp_of_error ran).mp (a.finish_frame entry _)).1 rfl

/-! ## The invariant of a run -/

theorem Filler.mono {vm₀ : Vm} {past : List Access} {a b : Access} {side : TlbSide} {slot : Word}
    {entry : TlbEntry} (h : Filler vm₀ past side slot b entry) :
    Filler vm₀ (a :: past) side slot b entry :=
  ⟨List.mem_cons_of_mem a h.mem, h.side_eq, h.walked, h.slot_eq⟩

/-- The valid slots are those that earlier accesses fill, and hold their leaves. -/
structure Filled (vm₀ : Vm) (past : List Access) (vm : Vm) : Prop where
  frame : AccessFrame vm₀ vm
  cap : ∀ side, (vm.hart.tlb side).cap = (vm₀.hart.tlb side).cap
  origin : ∀ side slot, slot < (vm₀.hart.tlb side).cap →
    ((vm.hart.tlb side).entries slot).entryValid = true →
    ∃ b, Filler vm₀ past side slot b ((vm.hart.tlb side).entries slot)
  present : ∀ side slot b entry, Filler vm₀ past side slot b entry →
    ((vm.hart.tlb side).entries slot).entryValid = true

/-- What a lookup finds is the leaf of the address looked up, in the slot of that leaf. -/
theorem leaf_of_hit {vm₀ vm : Vm} {past : List Access} {a : Access} {entry : TlbEntry}
    (hinv : Filled vm₀ past vm) (hsep : Separated vm₀ past a)
    (hhit : (vm.hart.tlb a.side).vaToTlbEntry a.va = some entry) :
    walkLeaf vm₀ a.va = some (.ok entry) ∧
      ((vm.hart.tlb a.side).entries
        (leafSlot (vm₀.hart.tlb a.side) a.va entry.pageMask)).entryValid = true := by
  have of_filler : ∀ slot b,
      Filler vm₀ past a.side slot b entry → SamePage a b entry →
      walkLeaf vm₀ a.va = some (.ok entry) ∧
        leafSlot (vm₀.hart.tlb a.side) a.va entry.pageMask = slot := by
    intro slot b hb hpage
    have hleaf := walkFromEmpty_eq_some.mp hb.walked
    refine ⟨walkLeaf_congr hleaf hpage, ?_⟩
    rw [← hb.slot_eq]
    exact leafSlot_congr (walkLeaf_ok hleaf).2.2.1 hpage
  have hcap := hinv.cap a.side
  have h4K : (vm.hart.tlb a.side).slot4K a.va = (vm₀.hart.tlb a.side).slot4K a.va := by
    simp only [Tlb.slot4K, hcap]
  have h4M : (vm.hart.tlb a.side).slot4M a.va = (vm₀.hart.tlb a.side).slot4M a.va := by
    simp only [Tlb.slot4M, hcap]
  obtain ⟨hvalid, hslot | ⟨hslot, hfree⟩⟩ := vaToTlbEntry_eq_some hhit
  · rw [h4K] at hslot
    obtain ⟨b, hb⟩ := hinv.origin a.side _ (slot4K_lt _ a.va) (hslot ▸ hvalid)
    rw [← hslot] at hb
    obtain ⟨hleaf, hat⟩ := of_filler _ b hb (hsep.1 b entry hb)
    exact ⟨hleaf, by rw [hat, ← hslot]; exact hvalid⟩
  · rw [h4M] at hslot
    rw [h4K] at hfree
    obtain ⟨b, hb⟩ := hinv.origin a.side _ (slot4M_lt _ a.va) (hslot ▸ hvalid)
    rw [← hslot] at hb
    have hpage : SamePage a b entry := by
      rcases hsep.2 with ⟨c, leaf, hc⟩ | hpages
      · rw [hinv.present a.side _ c leaf hc] at hfree
        cases hfree
      · exact hpages b entry hb
    obtain ⟨hleaf, hat⟩ := of_filler _ b hb hpage
    exact ⟨hleaf, by rw [hat, ← hslot]; exact hvalid⟩

theorem filled_start {vm₀ : Vm} (h : Invalidated vm₀) : Filled vm₀ [] vm₀ where
  frame := .refl vm₀
  cap _ := rfl
  origin side slot hslot hvalid := by
    rw [h side slot hslot] at hvalid
    cases hvalid
  present _ _ _ _ hb := absurd hb.mem List.not_mem_nil

theorem AccessFrame.trans {vm vm' vm'' : Vm} (h : AccessFrame vm vm') (h' : AccessFrame vm' vm'') :
    AccessFrame vm vm'' :=
  ⟨h'.csrBlob.trans h.csrBlob, h'.privilegeLevel.trans h.privilegeLevel,
    fun va => (h'.leaf va).trans (h.leaf va)⟩

/-- An access that leaves the TLBs alone, and whose leaf (if any) is present already. -/
private theorem filled_of_hart_eq {vm₀ vm vm' : Vm} {past : List Access} {a : Access}
    (hinv : Filled vm₀ past vm) (hframe : AccessFrame vm vm') (hhart : vm'.hart = vm.hart)
    (hpresent : ∀ entry, walkLeaf vm₀ a.va = some (.ok entry) →
      ((vm.hart.tlb a.side).entries
        (leafSlot (vm₀.hart.tlb a.side) a.va entry.pageMask)).entryValid = true) :
    Filled vm₀ (a :: past) vm' where
  frame := hinv.frame.trans hframe
  cap side := by rw [hhart, hinv.cap side]
  origin side slot hslot hvalid := by
    rw [hhart] at hvalid ⊢
    obtain ⟨b, hb⟩ := hinv.origin side slot hslot hvalid
    exact ⟨b, hb.mono⟩
  present side slot b entry hb := by
    rw [hhart]
    rcases List.mem_cons.mp hb.mem with rfl | hmem
    · obtain rfl := hb.side_eq
      rw [← hb.slot_eq]
      exact hpresent entry (walkFromEmpty_eq_some.mp hb.walked)
    · exact hinv.present side slot b entry ⟨hmem, hb.side_eq, hb.walked, hb.slot_eq⟩

theorem tlb_setTlb_self (h : Hart) (side : TlbSide) (tlb : Tlb) :
    (h.setTlb side tlb).tlb side = tlb := by
  cases side <;> rfl

theorem tlb_setTlb_ne {h : Hart} {side side' : TlbSide} (tlb : Tlb) (hne : side' ≠ side) :
    (h.setTlb side tlb).tlb side' = h.tlb side' := by
  cases side <;> cases side' <;> first | rfl | exact absurd rfl hne

/-- An access that caches its leaf. -/
private theorem filled_of_cached {vm₀ vm vm' : Vm} {past : List Access} {a : Access}
    {leaf : TlbEntry} (hinv : Filled vm₀ past vm) (hframe : AccessFrame vm vm')
    (hleaf : walkLeaf vm₀ a.va = some (.ok leaf))
    (hhart : vm'.hart = (cached vm a.side a.va leaf).hart) : Filled vm₀ (a :: past) vm' := by
  set slot₀ := leafSlot (vm₀.hart.tlb a.side) a.va leaf.pageMask with hslot₀
  have htlb : vm'.hart.tlb a.side = (vm.hart.tlb a.side).install slot₀ leaf := by
    rw [hhart, cached, tlb_setTlb_self, leafSlot_eq_of_cap (hinv.cap a.side)]
  have hother : ∀ side, side ≠ a.side → vm'.hart.tlb side = vm.hart.tlb side := by
    intro side hne
    rw [hhart, cached, tlb_setTlb_ne _ hne]
  have hnew : Filler vm₀ (a :: past) a.side slot₀ a leaf :=
    ⟨List.mem_cons_self, rfl, walkFromEmpty_eq_some.mpr hleaf, rfl⟩
  have hvalid : leaf.entryValid = true := (walkLeaf_ok hleaf).1
  refine ⟨hinv.frame.trans hframe, ?cap, ?origin, ?present⟩
  case cap =>
    intro side
    by_cases hside : side = a.side
    · subst hside
      rw [htlb]
      exact hinv.cap a.side
    · rw [hother side hside, hinv.cap side]
  case origin =>
    intro side slot hslot hv
    by_cases hside : side = a.side
    · subst hside
      rw [htlb, Tlb.install] at hv ⊢
      by_cases hat : slot = slot₀
      · subst hat
        simp only [Function.update_self]
        exact ⟨a, hnew⟩
      · simp only [Function.update_of_ne hat] at hv ⊢
        obtain ⟨b, hb⟩ := hinv.origin a.side slot hslot hv
        exact ⟨b, hb.mono⟩
    · rw [hother side hside] at hv ⊢
      obtain ⟨b, hb⟩ := hinv.origin side slot hslot hv
      exact ⟨b, hb.mono⟩
  case present =>
    intro side slot b entry hb
    by_cases hside : side = a.side
    · subst hside
      rw [htlb, Tlb.install]
      by_cases hat : slot = slot₀
      · subst hat
        simp only [Function.update_self]
        exact hvalid
      · simp only [Function.update_of_ne hat]
        rcases List.mem_cons.mp hb.mem with rfl | hmem
        · have hsame := hb.walked
          rw [walkFromEmpty_eq_some.mpr hleaf] at hsame
          obtain rfl := Option.some.inj hsame
          exact absurd hb.slot_eq.symm hat
        · exact hinv.present _ slot b entry ⟨hmem, hb.side_eq, hb.walked, hb.slot_eq⟩
    · rw [hother side hside]
      rcases List.mem_cons.mp hb.mem with rfl | hmem
      · exact absurd hb.side_eq.symm hside
      · exact hinv.present side slot b entry ⟨hmem, hb.side_eq, hb.walked, hb.slot_eq⟩

/-- One access keeps the invariant. -/
theorem filled_step {vm₀ vm vm' : Vm} {past : List Access} {a : Access}
    (hpaging : vm.hart.pagingOn = true) (hinv : Filled vm₀ past vm)
    (hsep : Separated vm₀ past a) (hstep : Step a vm vm') : Filled vm₀ (a :: past) vm' := by
  obtain ⟨hframe, heffect⟩ := step_cases hpaging hstep
  cases heffect with
  | hit entry found hart_eq =>
      obtain ⟨hleaf, hpresent⟩ := leaf_of_hit hinv hsep found
      refine filled_of_hart_eq hinv hframe hart_eq fun entry' hleaf' => ?_
      rw [hleaf] at hleaf'
      cases hleaf'
      exact hpresent
  | filled entry leaf hart_eq =>
      rw [hinv.frame.leaf] at leaf
      exact filled_of_cached hinv hframe leaf hart_eq
  | missed leaf hart_eq =>
      refine filled_of_hart_eq hinv hframe hart_eq fun entry hleaf => ?_
      rw [← hinv.frame.leaf] at hleaf
      exact absurd hleaf (leaf entry)

theorem pagingOn_of_frame {vm₀ vm : Vm} (h : AccessFrame vm₀ vm)
    (hpaging : vm₀.hart.pagingOn = true) : vm.hart.pagingOn = true := by
  simpa only [Hart.pagingOn, h.csrBlob, h.privilegeLevel] using hpaging

/-- A run of separated accesses keeps the invariant. -/
theorem filled_run {vm₀ vm : Vm} {past : List Access} (hpaging : vm₀.hart.pagingOn = true)
    (hempty : Invalidated vm₀) (hrun : Run vm₀ (Separated vm₀) past vm) :
    Filled vm₀ past vm := by
  induction hrun with
  | start => exact filled_start hempty
  | step _ allowed hstep ih =>
      exact filled_step (pagingOn_of_frame ih.frame hpaging) ih allowed hstep

/-! ## Hits agree with the walk -/

theorem agrees_of_leaf {vm : Vm} {a : Access} {entry : TlbEntry}
    (h : walkLeaf vm a.va = some (.ok entry)) : Agrees vm a entry :=
  ⟨(walkLeaf_ok h).2.1, entry, walkFromEmpty_eq_some.mpr h, rfl⟩

/--
After any run of accesses that keep apart in the slots, every lookup of a
further such access finds the entry the walk from an empty TLB finds.
-/
theorem hits_agree_with_walk {vm₀ vm : Vm} {past : List Access} {a : Access}
    (hpaging : vm₀.hart.pagingOn = true) (hempty : Invalidated vm₀)
    (hrun : Run vm₀ (Separated vm₀) past vm) (hsep : Separated vm₀ past a) :
    HitsAgree vm a := by
  have hinv := filled_run hpaging hempty hrun
  have hhit : ∀ entry, (vm.hart.tlb a.side).vaToTlbEntry a.va = some entry → Agrees vm a entry := by
    intro entry hfound
    have hleaf := (leaf_of_hit hinv hsep hfound).1
    rw [← hinv.frame.leaf] at hleaf
    exact agrees_of_leaf hleaf
  refine ⟨hhit, fun entry vm' htranslate => ?_⟩
  rw [translateAddress_apply a.side a.fault_lt] at htranslate
  cases hlook : (vm.hart.tlb a.side).vaToTlbEntry a.va with
  | some found =>
      rw [hlook] at htranslate
      cases htranslate
      exact hhit entry hlook
  | none =>
      rw [hlook] at htranslate
      rcases hleaf : walkLeaf vm a.va with _ | (rc | leaf)
      · simp only [hleaf] at htranslate
        cases htranslate
      · simp only [hleaf] at htranslate
        cases htranslate
      · simp only [hleaf] at htranslate
        cases htranslate
        exact agrees_of_leaf hleaf

/-! ## One mapped page -/

/-- RAM with a root table at its start that maps the page at `0x1000` and nothing else. -/
def onePageRam : Nat → Byte
  | 0x0 => 0x01
  | 0x1 => 0x04
  | 0x3 => 0x20
  | 0x1004 => 0x0f
  | 0x1005 => 0x08
  | 0x1007 => 0x20
  | _ => 0

/-- The machine in user mode under these tables. -/
def onePageVm : Vm :=
  let vm := virtualMachineInit (fun _ => 0) onePageRam
  { vm with
    hart := { vm.hart.setCsrBlob CSR_ADDRESS_SATP 0x80080000 with
      privilegeLevel := PRIVILEGE_LEVEL_USER } }

/-- The machine after one access. -/
def after (a : Access) (vm : Vm) : Vm :=
  finalState (a.run vm)

theorem step_after {a : Access} {vm : Vm} (hok : isOk (a.run vm) = true)
    (hread : ∀ va size value, a ≠ .write va size value) : Step a vm (after a vm) := by
  obtain ⟨_, hran⟩ := eq_ok_of_isOk hok
  exact .done hran fun va size value h => absurd h (hread va size value)

theorem invalidated_onePageVm : Invalidated onePageVm := by
  rintro (_ | _) idx - <;> rfl

private theorem onePage_walk : walkFromEmpty onePageVm .dtlb 0x1000 =
    some
      { vaTag := 0x1000, paTag := 0x80002000, pageMask := PAGE_MASK_4K, entryValid := true
        pmr := { addrLow := 0x80000000, addrHigh := 0x90000000, ops := .ram }
        ghostSatp := 0x80080000 } := by
  decide +kernel

private theorem onePage_step : Step (.read 0x1000 .b4) onePageVm
    (after (.read 0x1000 .b4) onePageVm) :=
  step_after (by decide +kernel) (fun _ _ _ h => nomatch h)

theorem separated_nil (vm₀ : Vm) (a : Access) : Separated vm₀ [] a :=
  ⟨fun _ _ h => absurd h.mem List.not_mem_nil,
    .inr fun _ _ h => absurd h.mem List.not_mem_nil⟩

/-- Two reads of the mapped page. -/
theorem hits_agree_with_walk_one_page :
    HitsAgree (after (.read 0x1000 .b4) onePageVm) (.read 0x1ffc .b4) := by
  have hpage : ∀ slot b entry,
      Filler onePageVm [.read 0x1000 .b4] .dtlb slot b entry →
      SamePage (.read 0x1ffc .b4) b entry := by
    intro slot b entry hb
    obtain rfl := List.mem_singleton.mp hb.mem
    have hwalked := hb.walked
    simp only [Access.va] at hwalked
    rw [onePage_walk] at hwalked
    obtain rfl := Option.some.inj hwalked
    rfl
  exact hits_agree_with_walk (by decide) invalidated_onePageVm
    (.step .start (separated_nil _ _) onePage_step)
    ⟨fun b entry hb => hpage _ b entry hb, .inr fun b entry hb => hpage _ b entry hb⟩

/--
An unmapped address that shares a slot with the mapped page hits.  Both
capacities are the shipped power of two.
-/
theorem unmapped_address_hits :
    ¬∀ (vm₀ vm : Vm) (past : List Access) (a : Access),
      vm₀.hart.pagingOn = true →
      (∀ side, ∃ k, (vm₀.hart.tlb side).cap.toNat = 2 ^ k) →
      Invalidated vm₀ →
      Run vm₀ (fun _ _ => True) past vm →
      HitsAgree vm a := by
  intro hclaim
  have hagree := hclaim onePageVm (after (.read 0x1000 .b4) onePageVm) [.read 0x1000 .b4]
    (.read 0x4001000 .b4) (by decide) (by rintro (_ | _) <;> exact ⟨14, rfl⟩)
    invalidated_onePageVm (.step .start trivial onePage_step)
  have hhit : ((after (.read 0x1000 .b4) onePageVm).hart.dtlb.vaToTlbEntry 0x4001000).map
      (fun entry => (entry.vaTag, entry.pageMask)) = some (0x1000, PAGE_MASK_4K) := by
    decide +kernel
  obtain ⟨entry, hentry, htag⟩ := Option.map_eq_some_iff.mp hhit
  obtain ⟨hvaTag, hmask⟩ := Prod.mk.inj htag
  have hagrees := (hagree.1 entry hentry).1
  rw [hvaTag, hmask] at hagrees
  exact absurd hagrees (by decide)

end Zelda.Proofs.TlbAgreement
