import Mathlib.Data.Finset.Card
import Mathlib.Data.Fintype.Basic
import Zelda.Proofs.AtomicAliasing
/-!
# Load-reserved and store-conditional

Every `lr.w` takes a slot of the reservation table and only an `sc.w` of the
same address gives one back.  A slot that was never given back lets a later
`sc.w` through, whatever the hart has done in between; without such slots an
`sc.w` succeeds only right behind its own `lr.w`, and no increment is lost.
-/

namespace Zelda.Proofs.Reservations

open Zelda.Vmm
open Zelda.Lib.Bytes
open Zelda.Lib.Effect
open Zelda.Proofs.AtomicAliasing
open Zelda.Proofs.DataAccess
open Zelda.Proofs.Frames
open Zelda.Proofs.LittleEndian
open Zelda.Proofs.MemoryInstructions

/-! ## Histories -/

/-- What a hart has done to the reservation table. -/
inductive Op
  | lr (addr : Word)
  | sc (addr : Word)
  deriving DecidableEq, Repr

/--
How many `lr.w` of an address no `sc.w` of that address has answered yet.  The
latest operation comes first.
-/
def outstanding (addr : Word) : List Op → Nat
  | [] => 0
  | .lr a :: ops => if a = addr then outstanding addr ops + 1 else outstanding addr ops
  | .sc a :: ops => if a = addr then outstanding addr ops - 1 else outstanding addr ops

/-- The latest operation is an `lr.w` of the address. -/
def Paired (ops : List Op) (addr : Word) : Prop :=
  ops.head? = some (.lr addr)

/-- An `sc.w` of the address comes right behind its `lr.w`, or no `lr.w` waits for one. -/
def Settled (ops : List Op) (addr : Word) : Prop :=
  Paired ops addr ∨ outstanding addr ops = 0

/-- How many slots the hart needs for the `lr.w` that wait. -/
def waiting : List Op → Nat
  | [] => 0
  | .lr _ :: ops => waiting ops + 1
  | .sc a :: ops => if outstanding a ops = 0 then waiting ops else waiting ops - 1

/-- No `lr.w` has found the table full. -/
def Fits : List Op → Prop
  | [] => True
  | .lr _ :: ops => waiting ops < MAX_RESERVATION_ITEMS ∧ Fits ops
  | .sc _ :: ops => Fits ops

/-! ## Slots -/

/-- What `sc_slowpath` looks for. -/
def Holds (hartId : Nat) (addr : Word) (item : ReservationItem) : Prop :=
  item.valid = true ∧ item.addr = addr ∧ item.hartid.toNat = hartId

instance (hartId : Nat) (addr : Word) (item : ReservationItem) :
    Decidable (Holds hartId addr item) :=
  inferInstanceAs (Decidable (_ ∧ _))

/-- The slots the hart holds on an address. -/
def slots (vm : Vm) (addr : Word) : Finset (Fin MAX_RESERVATION_ITEMS) :=
  Finset.univ.filter fun idx => Holds vm.hart.hartId addr (vm.reservations idx)

/-- The table and its reader are the same. -/
structure SameTable (s t : Vm) : Prop where
  reservations : t.reservations = s.reservations
  hartId : t.hart.hartId = s.hart.hartId

theorem SameTable.refl (s : Vm) : SameTable s s :=
  ⟨rfl, rfl⟩

theorem SameTable.trans {s t u : Vm} (h : SameTable s t) (h' : SameTable t u) : SameTable s u :=
  ⟨h'.reservations.trans h.reservations, h'.hartId.trans h.hartId⟩

theorem SameTable.slots_eq {s t : Vm} (h : SameTable s t) (addr : Word) :
    slots t addr = slots s addr := by
  unfold slots
  rw [h.reservations, h.hartId]

section Slots

variable {vm : Vm} {addr : Word} {idx : Fin MAX_RESERVATION_ITEMS}

theorem mem_slots : idx ∈ slots vm addr ↔ Holds vm.hart.hartId addr (vm.reservations idx) := by
  unfold slots
  rw [Finset.mem_filter]
  exact and_iff_right (Finset.mem_univ idx)

theorem matches_iff (idx : Fin MAX_RESERVATION_ITEMS) :
    ((vm.reservations idx).valid && (vm.reservations idx).addr == addr &&
      (vm.reservations idx).hartid.toNat == vm.hart.hartId) = true ↔ idx ∈ slots vm addr := by
  rw [mem_slots, Holds, Bool.and_eq_true, Bool.and_eq_true, beq_iff_eq, beq_iff_eq, and_assoc]

theorem matchingReservation_none_iff : vm.matchingReservation addr = none ↔ slots vm addr = ∅ := by
  unfold Vm.matchingReservation
  rw [List.find?_eq_none, Finset.eq_empty_iff_forall_notMem]
  constructor
  · intro h idx hidx
    exact h idx (List.mem_finRange idx) ((matches_iff idx).mpr hidx)
  · intro h idx _ hmatch
    exact h idx ((matches_iff idx).mp hmatch)

theorem mem_slots_of_matching (h : vm.matchingReservation addr = some idx) :
    idx ∈ slots vm addr := by
  have hmatch := List.find?_some h
  exact (matches_iff idx).mp hmatch

/-- What the table holds after an `lr.w`. -/
theorem reserve_reservations (vm : Vm) (a : Word) :
    (vm.reserve a).reservations = Function.update vm.reservations vm.freeReservation
      { addr := a, valid := true, hartid := BitVec.ofNat 8 vm.hart.hartId } :=
  rfl

/-- A new reservation shows in the slot that was chosen for it, if anywhere. -/
theorem slots_reserve_subset (vm : Vm) (a addr : Word) :
    slots (vm.reserve a) addr ⊆ insert vm.freeReservation (slots vm addr) := by
  intro idx hidx
  by_cases hslot : idx = vm.freeReservation
  · rw [hslot]
    exact Finset.mem_insert_self _ _
  · apply Finset.mem_insert_of_mem
    rw [mem_slots, reserve_reservations, Function.update_of_ne hslot] at hidx
    exact mem_slots.mpr hidx

theorem slots_reserve_other {a : Word} (hne : a ≠ addr) :
    slots (vm.reserve a) addr ⊆ slots vm addr := by
  intro idx hidx
  rcases Finset.mem_insert.mp (slots_reserve_subset vm a addr hidx) with rfl | hold
  · rw [mem_slots, reserve_reservations, Function.update_self] at hidx
    exact absurd hidx.2.1 hne
  · exact hold

/-- A hart whose id fits in its field finds its own reservation again. -/
theorem slots_reserve_self (vm : Vm) (hid : vm.hart.hartId < 256) (a : Word) :
    slots (vm.reserve a) a = insert vm.freeReservation (slots vm a) := by
  apply Finset.Subset.antisymm (slots_reserve_subset vm a a)
  intro idx hidx
  rw [mem_slots, reserve_reservations]
  by_cases hslot : idx = vm.freeReservation
  · rw [hslot, Function.update_self]
    exact ⟨rfl, rfl, Nat.mod_eq_of_lt hid⟩
  · rw [Function.update_of_ne hslot]
    exact mem_slots.mp (Finset.mem_of_mem_insert_of_ne hidx hslot)

theorem slots_reserve_other_of_free {a : Word} (hne : a ≠ addr)
    (hfree : vm.freeReservation ∉ slots vm addr) : slots (vm.reserve a) addr = slots vm addr := by
  apply Finset.Subset.antisymm (slots_reserve_other hne)
  intro idx hidx
  have hslot : idx ≠ vm.freeReservation := by
    rintro rfl
    exact hfree hidx
  rw [mem_slots, reserve_reservations, Function.update_of_ne hslot]
  exact mem_slots.mp hidx

theorem clearReservation_reservations (vm : Vm) (idx : Fin MAX_RESERVATION_ITEMS) :
    (vm.clearReservation idx).reservations =
      Function.update vm.reservations idx { vm.reservations idx with valid := false } :=
  rfl

theorem slots_clearReservation (vm : Vm) (idx : Fin MAX_RESERVATION_ITEMS) (addr : Word) :
    slots (vm.clearReservation idx) addr = (slots vm addr).erase idx := by
  ext i
  rw [Finset.mem_erase, mem_slots, mem_slots, clearReservation_reservations]
  by_cases hi : i = idx
  · rw [hi, Function.update_self]
    constructor
    · intro hholds
      cases hholds.1
    · intro hne
      exact absurd rfl hne.1
  · rw [Function.update_of_ne hi]
    exact (and_iff_right hi).symm

/-- The slots in use. -/
def taken (vm : Vm) : Finset (Fin MAX_RESERVATION_ITEMS) :=
  Finset.univ.filter fun idx => (vm.reservations idx).valid = true

theorem mem_taken : idx ∈ taken vm ↔ (vm.reservations idx).valid = true := by
  unfold taken
  rw [Finset.mem_filter]
  exact and_iff_right (Finset.mem_univ idx)

theorem taken_of_mem_slots (h : idx ∈ slots vm addr) : idx ∈ taken vm :=
  mem_taken.mpr (mem_slots.mp h).1

theorem SameTable.taken_eq {s t : Vm} (h : SameTable s t) : taken t = taken s := by
  unfold taken
  rw [h.reservations]

/-- With room in the table, nothing is evicted. -/
theorem freeReservation_notMem_taken (hroom : (taken vm).card < MAX_RESERVATION_ITEMS) :
    vm.freeReservation ∉ taken vm := by
  unfold Vm.freeReservation
  cases hfind : (List.finRange MAX_RESERVATION_ITEMS).find?
      fun idx => !(vm.reservations idx).valid with
  | some idx =>
      have hfree := List.find?_some hfind
      intro htaken
      rw [Option.getD_some, mem_taken] at htaken
      rw [htaken] at hfree
      cases hfree
  | none =>
      have hall : taken vm = Finset.univ := by
        apply Finset.eq_univ_iff_forall.mpr
        intro idx
        have hvalid := List.find?_eq_none.mp hfind idx (List.mem_finRange idx)
        rw [mem_taken]
        simpa using hvalid
      rw [hall, Finset.card_univ, Fintype.card_fin] at hroom
      exact absurd hroom (Nat.lt_irrefl _)

theorem taken_reserve (vm : Vm) (a : Word) :
    taken (vm.reserve a) = insert vm.freeReservation (taken vm) := by
  ext idx
  rw [Finset.mem_insert, mem_taken, mem_taken, reserve_reservations]
  by_cases hslot : idx = vm.freeReservation
  · rw [hslot, Function.update_self]
    exact ⟨fun _ => .inl rfl, fun _ => rfl⟩
  · rw [Function.update_of_ne hslot]
    exact (or_iff_right hslot).symm

theorem taken_clearReservation (vm : Vm) (idx : Fin MAX_RESERVATION_ITEMS) :
    taken (vm.clearReservation idx) = (taken vm).erase idx := by
  ext i
  rw [Finset.mem_erase, mem_taken, mem_taken, clearReservation_reservations]
  by_cases hi : i = idx
  · rw [hi, Function.update_self]
    constructor
    · intro hvalid
      cases hvalid
    · intro hne
      exact absurd rfl hne.1
  · rw [Function.update_of_ne hi]
    exact (and_iff_right hi).symm

theorem taken_of_empty (h : ∀ idx, (vm.reservations idx).valid = false) : taken vm = ∅ := by
  apply Finset.eq_empty_iff_forall_notMem.mpr
  intro idx hidx
  rw [mem_taken, h idx] at hidx
  cases hidx

theorem slots_of_empty (h : ∀ idx, (vm.reservations idx).valid = false) : slots vm addr = ∅ := by
  apply Finset.eq_empty_iff_forall_notMem.mpr
  intro idx hidx
  have htaken := taken_of_mem_slots hidx
  rw [taken_of_empty h] at htaken
  exact Finset.notMem_empty idx htaken

end Slots

/-! ## What leaves the table alone -/

/-- `m` keeps the table of `s`, whichever way it ends. -/
abbrev KeepsTable {α : Type} (s : Vm) (m : VmM α) : Prop :=
  Ends (SameTable s) (fun _ t => SameTable s t) m

section KeepsTable

variable (s : Vm)

theorem SameTable.touched {s t : Vm} (h : SameTable s t) (va : Word) :
    SameTable s (touched t va) := by
  apply h.trans
  constructor
  · exact touched_field Vm.reservations (fun _ => rfl) va
  · exact touched_field (fun u => u.hart.hartId) (fun _ => rfl) va

theorem SameTable.writeFrame {s t u : Vm} (h : SameTable s t) (hu : WriteFrame t u) :
    SameTable s u := by
  apply h.trans
  rw [WriteFrame] at hu
  rw [hu]
  exact ⟨rfl, rfl⟩

theorem SameTable.takeTrap (s : Vm) (level : BitVec 2) (cause tval : Word) :
    SameTable s { s with hart := s.hart.takeTrap level cause tval } :=
  ⟨rfl, takeTrap_hartId _ _ _ _⟩

theorem SameTable.excepted {s t : Vm} (h : SameTable s t) (cause : Nat) (tval : Word) :
    SameTable s (excepted t cause tval) :=
  h.trans (.takeTrap t _ _ tval)

theorem keepsTable_vmread (va : Word) (size : AccessSize) : KeepsTable s (vmread va size) := by
  intro t ht
  unfold Wp
  rw [vmread_apply]
  cases target t va with
  | region pmr pa =>
      refine wp_mono (pmrRead_frame pmr pa size (touched t va)) ?_ ?_
      · exact fun _ u hu => (ht.touched va).writeFrame hu.writeFrame
      · rintro _ _ ⟨-, rfl⟩
        exact ht.touched va
  | pageFault => exact ht.excepted _ _
  | exit => exact ht

theorem keepsTable_vmwrite (va : Word) (size : AccessSize) (value : DWord) :
    KeepsTable s (vmwrite va size value) := by
  intro t ht
  unfold Wp
  rw [vmwrite_apply]
  cases target t va with
  | region pmr pa =>
      refine wp_mono (pmrWrite_frame pmr pa size value (touched t va)) ?_ ?_
      · exact fun _ u hu => (ht.touched va).writeFrame hu
      · rintro _ _ ⟨-, rfl⟩
        exact ht.touched va
  | pageFault => exact ht.excepted _ _
  | exit => exact ht

theorem keepsTable_misaligned {α : Type} (va : Word) :
    KeepsTable s (raiseExceptionWithTvalue EXCEPTION_LOAD_ADDRESS_MISALIGN va : VmM α) := by
  intro t ht
  rw [wp_of_error (raiseExceptionWithTvalue_apply va t (by decide))]
  exact ht.excepted _ _

theorem keepsTable_mmuRead32Aligned (va : Word) : KeepsTable s (mmuRead32Aligned va) := by
  unfold mmuRead32Aligned
  apply ends_ite (keepsTable_misaligned s va)
  exact ends_bind (keepsTable_vmread s va .b4) fun _ => ends_pure _

theorem keepsTable_mmuWrite32Aligned (va value : Word) :
    KeepsTable s (mmuWrite32Aligned va value) := by
  unfold mmuWrite32Aligned
  apply ends_ite (keepsTable_misaligned s va)
  exact keepsTable_vmwrite s va .b4 _

theorem keepsTable_regWrite (index : RegIndex) (value : Word) :
    KeepsTable s (regWrite index value) :=
  fun _ ht => ⟨ht.reservations, ht.hartId⟩

theorem keepsTable_amoSlowpath (combine : Word → Word → Word) (rs1 rs2 rd : RegIndex) :
    KeepsTable s (amoSlowpath combine rs1 rs2 rd) := by
  unfold amoSlowpath
  apply ends_bind ends_get
  intro vm
  apply ends_bind (keepsTable_mmuRead32Aligned s _)
  intro loaded
  apply ends_bind (keepsTable_regWrite s rd loaded)
  intro _
  apply ends_bind ends_get
  intro vm
  exact keepsTable_mmuWrite32Aligned s _ _

end KeepsTable

/-! ## The two operations -/

section Operations

variable {vm t : Vm} {rs1 rs2 rd : RegIndex}

/-- An `lr.w` that completes has loaded a word and taken a slot. -/
theorem lrSlowpath_loaded (h : lrSlowpath rs1 rs2 rd vm = .ok () t) :
    ∃ loaded u, mmuRead32Aligned (vm.hart.registers rs1) vm = .ok loaded u ∧
      t = Vm.reserve { u with hart := u.hart.setReg rd loaded } (vm.hart.registers rs1) := by
  rw [lrSlowpath_apply] at h
  cases hread : mmuRead32Aligned (vm.hart.registers rs1) vm with
  | error e u =>
      rw [bind_apply_error hread] at h
      cases h
  | ok loaded u =>
      rw [bind_apply_ok hread] at h
      cases h
      exact ⟨loaded, u, rfl, rfl⟩

theorem lrSlowpath_ok (h : lrSlowpath rs1 rs2 rd vm = .ok () t) :
    ∃ u, SameTable vm u ∧ t = u.reserve (vm.hart.registers rs1) := by
  have hkeeps := keepsTable_mmuRead32Aligned vm (vm.hart.registers rs1) vm (.refl vm)
  obtain ⟨loaded, u, hread, rfl⟩ := lrSlowpath_loaded h
  rw [wp_of_ok hread] at hkeeps
  exact ⟨{ u with hart := u.hart.setReg rd loaded }, ⟨hkeeps.reservations, hkeeps.hartId⟩, rfl⟩

theorem lrSlowpath_error {e : Abort} (h : lrSlowpath rs1 rs2 rd vm = .error e t) :
    SameTable vm t := by
  have hkeeps := keepsTable_mmuRead32Aligned vm (vm.hart.registers rs1) vm (.refl vm)
  rw [lrSlowpath_apply] at h
  cases hread : mmuRead32Aligned (vm.hart.registers rs1) vm with
  | error e' u =>
      rw [bind_apply_error hread] at h
      cases h
      exact (wp_of_error hread).mp hkeeps
  | ok loaded u =>
      rw [bind_apply_ok hread] at h
      cases h

/-- The ways an `sc.w` can complete. -/
theorem scSlowpath_ok (h : scSlowpath rs1 rs2 rd vm = .ok () t) :
    (vm.matchingReservation (vm.hart.registers rs1) = none ∧
      t = { vm with hart := vm.hart.setReg rd 0x1 }) ∨
    ∃ idx u, vm.matchingReservation (vm.hart.registers rs1) = some idx ∧
      mmuWrite32Aligned (vm.hart.registers rs1) (vm.hart.registers rs2)
        { vm with hart := vm.hart.setReg rd 0x0 } = .ok () u ∧ t = u.clearReservation idx := by
  cases hslot : vm.matchingReservation (vm.hart.registers rs1) with
  | none =>
      rw [scSlowpath_of_none hslot] at h
      cases h
      exact .inl ⟨rfl, rfl⟩
  | some idx =>
      rw [scSlowpath_of_some hslot] at h
      cases hwrite : mmuWrite32Aligned (vm.hart.registers rs1) (vm.hart.registers rs2)
          { vm with hart := vm.hart.setReg rd 0x0 } with
      | error e u =>
          rw [bind_apply_error hwrite] at h
          cases h
      | ok _ u =>
          rw [bind_apply_ok hwrite] at h
          cases h
          exact .inr ⟨idx, u, rfl, rfl, rfl⟩

theorem keepsTable_write (vm : Vm) (rs1 rs2 rd : RegIndex) :
    Wp (mmuWrite32Aligned (vm.hart.registers rs1) (vm.hart.registers rs2))
      (fun _ t => SameTable vm t) (fun _ t => SameTable vm t)
      { vm with hart := vm.hart.setReg rd 0x0 } :=
  keepsTable_mmuWrite32Aligned vm _ _ _ ⟨rfl, rfl⟩

theorem scSlowpath_hartId (h : scSlowpath rs1 rs2 rd vm = .ok () t) :
    t.hart.hartId = vm.hart.hartId := by
  rcases scSlowpath_ok h with ⟨-, rfl⟩ | ⟨idx, u, -, hwrite, rfl⟩
  · rfl
  · exact ((wp_of_ok hwrite).mp (keepsTable_write vm rs1 rs2 rd)).hartId

/-- An `sc.w` that traps keeps its slot, for the store it is to be tried again with. -/
theorem scSlowpath_error {e : Abort} (h : scSlowpath rs1 rs2 rd vm = .error e t) :
    SameTable vm t := by
  cases hslot : vm.matchingReservation (vm.hart.registers rs1) with
  | none =>
      rw [scSlowpath_of_none hslot] at h
      cases h
  | some idx =>
      rw [scSlowpath_of_some hslot] at h
      cases hwrite : mmuWrite32Aligned (vm.hart.registers rs1) (vm.hart.registers rs2)
          { vm with hart := vm.hart.setReg rd 0x0 } with
      | error e' u =>
          rw [bind_apply_error hwrite] at h
          cases h
          exact (wp_of_error hwrite).mp (keepsTable_write vm rs1 rs2 rd)
      | ok _ u =>
          rw [bind_apply_ok hwrite] at h
          cases h

end Operations

/-! ## Runs -/

/-- The machine of one hart, with what the hart has done to the table. -/
inductive Run : Vm → List Op → Prop
  | start {vm : Vm} (empty : ∀ idx, (vm.reservations idx).valid = false) : Run vm []
  | lr {vm t : Vm} {ops : List Op} {rs1 rs2 rd : RegIndex} (run : Run vm ops)
      (ran : lrSlowpath rs1 rs2 rd vm = .ok () t) : Run t (.lr (vm.hart.registers rs1) :: ops)
  | sc {vm t : Vm} {ops : List Op} {rs1 rs2 rd : RegIndex} (run : Run vm ops)
      (ran : scSlowpath rs1 rs2 rd vm = .ok () t) : Run t (.sc (vm.hart.registers rs1) :: ops)
  /-- An operation that traps has not been executed. -/
  | refused {vm t : Vm} {ops : List Op} {rs1 rs2 rd : RegIndex} {e : Abort} (run : Run vm ops)
      (ran : lrSlowpath rs1 rs2 rd vm = .error e t ∨ scSlowpath rs1 rs2 rd vm = .error e t) :
      Run t ops
  | amo {vm : Vm} {ops : List Op} (run : Run vm ops) (combine : Word → Word → Word)
      (rs1 rs2 rd : RegIndex) : Run (finalState (amoSlowpath combine rs1 rs2 rd vm)) ops
  | store {vm : Vm} {ops : List Op} (run : Run vm ops) (va : Word) (size : AccessSize)
      (value : DWord) : Run (finalState (vmwrite va size value vm)) ops
  | trap {vm : Vm} {ops : List Op} (run : Run vm ops) (level : BitVec 2) (cause tval : Word) :
      Run { vm with hart := vm.hart.takeTrap level cause tval } ops
  /-- Anything else, which does not know of the table. -/
  | other {vm t : Vm} {ops : List Op} (run : Run vm ops) (same : SameTable vm t) : Run t ops

/-- No address has more slots than `lr.w` that wait for their `sc.w`. -/
def Bounded (vm : Vm) (ops : List Op) : Prop :=
  ∀ addr, (slots vm addr).card ≤ outstanding addr ops

section Bounded

variable {vm t : Vm} {ops : List Op} {rs1 rs2 rd : RegIndex}

theorem Bounded.same (h : Bounded vm ops) (hsame : SameTable vm t) : Bounded t ops := by
  intro addr
  rw [hsame.slots_eq]
  exact h addr

theorem Bounded.lr (h : Bounded vm ops) (ran : lrSlowpath rs1 rs2 rd vm = .ok () t) :
    Bounded t (.lr (vm.hart.registers rs1) :: ops) := by
  obtain ⟨u, hsame, rfl⟩ := lrSlowpath_ok ran
  intro addr
  have hbound := h.same hsame addr
  unfold outstanding
  split
  · calc _ ≤ (insert _ (slots _ addr)).card := Finset.card_le_card (slots_reserve_subset _ _ addr)
      _ ≤ (slots _ addr).card + 1 := Finset.card_insert_le _ _
      _ ≤ outstanding addr ops + 1 := by omega
  · rename_i hne
    exact (Finset.card_le_card (slots_reserve_other hne)).trans hbound

theorem Bounded.sc (h : Bounded vm ops) (ran : scSlowpath rs1 rs2 rd vm = .ok () t) :
    Bounded t (.sc (vm.hart.registers rs1) :: ops) := by
  intro addr
  have hbound := h addr
  rcases scSlowpath_ok ran with ⟨hnone, rfl⟩ | ⟨idx, u, hsome, hwrite, rfl⟩
  · have hsame : SameTable vm { vm with hart := vm.hart.setReg rd 0x1 } := ⟨rfl, rfl⟩
    rw [hsame.slots_eq]
    unfold outstanding
    split
    · rename_i haddr
      rw [← haddr, matchingReservation_none_iff.mp hnone, Finset.card_empty]
      omega
    · exact hbound
  · have hsame := (wp_of_ok hwrite).mp (keepsTable_write vm rs1 rs2 rd)
    rw [slots_clearReservation, hsame.slots_eq]
    unfold outstanding
    split
    · rename_i haddr
      have hmem := mem_slots_of_matching hsome
      rw [haddr] at hmem
      rw [Finset.card_erase_of_mem hmem]
      omega
    · exact (Finset.card_le_card (Finset.erase_subset idx _)).trans hbound

theorem Run.bounded (h : Run vm ops) : Bounded vm ops := by
  induction h with
  | start empty =>
      intro addr
      rw [slots_of_empty empty, Finset.card_empty]
      exact Nat.zero_le _
  | lr _ ran ih => exact ih.lr ran
  | sc _ ran ih => exact ih.sc ran
  | refused _ ran ih =>
      rcases ran with ran | ran
      · exact ih.same (lrSlowpath_error ran)
      · exact ih.same (scSlowpath_error ran)
  | @amo vm _ _ combine rs1 rs2 rd ih =>
      exact ih.same ((keepsTable_amoSlowpath vm combine rs1 rs2 rd).finalState (.refl vm))
  | @store vm _ _ va size value ih =>
      exact ih.same ((keepsTable_vmwrite vm va size value).finalState (.refl vm))
  | trap _ level cause tval ih => exact ih.same (.takeTrap _ level cause tval)
  | other _ same ih => exact ih.same same

/-- An `sc.w` no `lr.w` waits for is refused. -/
theorem Run.scSlowpath_fails (h : Run vm ops)
    (hnone : outstanding (vm.hart.registers rs1) ops = 0) :
    scSlowpath rs1 rs2 rd vm = .ok () { vm with hart := vm.hart.setReg rd 0x1 } := by
  have hbound := h.bounded (vm.hart.registers rs1)
  apply scSlowpath_of_none
  apply matchingReservation_none_iff.mpr
  apply Finset.card_eq_zero.mp
  omega

end Bounded

/-! ## Runs in which nothing is evicted -/

/-- The table holds what waits, and nothing else. -/
structure Exact (vm : Vm) (ops : List Op) : Prop where
  slots : ∀ addr, (slots vm addr).card = outstanding addr ops
  taken : (taken vm).card = waiting ops

section Exact

variable {vm t : Vm} {ops : List Op} {rs1 rs2 rd : RegIndex}

theorem Exact.same (h : Exact vm ops) (hsame : SameTable vm t) : Exact t ops := by
  constructor
  · intro addr
    rw [hsame.slots_eq]
    exact h.slots addr
  · rw [hsame.taken_eq]
    exact h.taken

theorem Exact.reserve (h : Exact vm ops) (hroom : waiting ops < MAX_RESERVATION_ITEMS)
    (hid : vm.hart.hartId < 256) (a : Word) : Exact (vm.reserve a) (.lr a :: ops) := by
  have hfree : vm.freeReservation ∉ Reservations.taken vm := by
    apply freeReservation_notMem_taken
    rw [h.taken]
    exact hroom
  have hfresh : ∀ addr, vm.freeReservation ∉ Reservations.slots vm addr :=
    fun addr hmem => hfree (taken_of_mem_slots hmem)
  constructor
  · intro addr
    unfold outstanding
    split
    · rename_i haddr
      subst haddr
      rw [slots_reserve_self vm hid, Finset.card_insert_of_notMem (hfresh a), h.slots]
    · rename_i hne
      rw [slots_reserve_other_of_free hne (hfresh addr), h.slots]
  · rw [taken_reserve, Finset.card_insert_of_notMem hfree, h.taken]
    rfl

theorem Exact.clear (h : Exact vm ops) {a : Word} {idx : Fin MAX_RESERVATION_ITEMS}
    (hmem : idx ∈ Reservations.slots vm a) : Exact (vm.clearReservation idx) (.sc a :: ops) := by
  have hpos : outstanding a ops ≠ 0 := by
    rw [← h.slots a]
    exact Finset.card_ne_zero_of_mem hmem
  constructor
  · intro addr
    rw [slots_clearReservation]
    unfold outstanding
    split
    · rename_i haddr
      subst haddr
      rw [Finset.card_erase_of_mem hmem, h.slots]
    · rename_i hne
      have hnot : idx ∉ Reservations.slots vm addr := by
        intro hother
        exact hne ((mem_slots.mp hmem).2.1.symm.trans (mem_slots.mp hother).2.1)
      rw [Finset.erase_eq_of_notMem hnot, h.slots]
  · rw [taken_clearReservation, Finset.card_erase_of_mem (taken_of_mem_slots hmem), h.taken]
    exact (if_neg hpos).symm

theorem Exact.lr (h : Exact vm ops) (hroom : waiting ops < MAX_RESERVATION_ITEMS)
    (hid : vm.hart.hartId < 256) (ran : lrSlowpath rs1 rs2 rd vm = .ok () t) :
    Exact t (.lr (vm.hart.registers rs1) :: ops) := by
  obtain ⟨u, hsame, rfl⟩ := lrSlowpath_ok ran
  apply (h.same hsame).reserve hroom
  rw [hsame.hartId]
  exact hid

theorem Exact.sc (h : Exact vm ops) (ran : scSlowpath rs1 rs2 rd vm = .ok () t) :
    Exact t (.sc (vm.hart.registers rs1) :: ops) := by
  rcases scSlowpath_ok ran with ⟨hnone, rfl⟩ | ⟨idx, u, hsome, hwrite, rfl⟩
  · have hzero : outstanding (vm.hart.registers rs1) ops = 0 := by
      rw [← h.slots, matchingReservation_none_iff.mp hnone, Finset.card_empty]
    have hsame : SameTable vm { vm with hart := vm.hart.setReg rd 0x1 } := ⟨rfl, rfl⟩
    constructor
    · intro addr
      rw [hsame.slots_eq, h.slots]
      show _ = if _ then outstanding addr ops - 1 else outstanding addr ops
      split
      · rename_i haddr
        rw [← haddr, hzero]
      · rfl
    · rw [hsame.taken_eq, h.taken]
      exact (if_pos hzero).symm
  · have hsame := (wp_of_ok hwrite).mp (keepsTable_write vm rs1 rs2 rd)
    apply (h.same hsame).clear
    rw [hsame.slots_eq]
    exact mem_slots_of_matching hsome

theorem Run.exact (h : Run vm ops) (hfits : Fits ops) (hid : vm.hart.hartId < 256) :
    Exact vm ops := by
  induction h with
  | start empty =>
      constructor
      · intro addr
        rw [slots_of_empty empty]
        rfl
      · rw [taken_of_empty empty]
        rfl
  | lr _ ran ih =>
      obtain ⟨u, hsame, rfl⟩ := lrSlowpath_ok ran
      have hid' := hsame.hartId ▸ hid
      exact (ih hfits.2 hid').lr hfits.1 hid' ran
  | sc _ ran ih =>
      rw [(scSlowpath_hartId ran)] at hid
      exact (ih hfits hid).sc ran
  | refused _ ran ih =>
      have hsame : SameTable _ _ := ran.elim lrSlowpath_error scSlowpath_error
      rw [hsame.hartId] at hid
      exact (ih hfits hid).same hsame
  | @amo vm _ _ combine rs1 rs2 rd ih =>
      have hsame := (keepsTable_amoSlowpath vm combine rs1 rs2 rd).finalState (.refl vm)
      rw [hsame.hartId] at hid
      exact (ih hfits hid).same hsame
  | @store vm _ _ va size value ih =>
      have hsame := (keepsTable_vmwrite vm va size value).finalState (.refl vm)
      rw [hsame.hartId] at hid
      exact (ih hfits hid).same hsame
  | @trap vm _ _ level cause tval ih =>
      have hsame := SameTable.takeTrap vm level cause tval
      rw [hsame.hartId] at hid
      exact (ih hfits hid).same hsame
  | other _ same ih =>
      rw [same.hartId] at hid
      exact (ih hfits hid).same same

/-- A reservation that waits lets an `sc.w` of its address through to the store. -/
theorem Run.scSlowpath_stores (h : Run vm ops) (hfits : Fits ops) (hid : vm.hart.hartId < 256)
    (hwaits : outstanding (vm.hart.registers rs1) ops ≠ 0) :
    scSlowpath rs1 rs2 rd vm ≠ .ok () { vm with hart := vm.hart.setReg rd 0x1 } := by
  intro hfails
  rcases scSlowpath_ok hfails with ⟨hnone, -⟩ | ⟨idx, u, hsome, hwrite, ht⟩
  · apply hwaits
    rw [← (h.exact hfits hid).slots, matchingReservation_none_iff.mp hnone, Finset.card_empty]
  · -- the slot it went through is in use before and not after
    have htable : vm.reservations = (u.clearReservation idx).reservations := by
      rw [← ht]
    have hvalid := (mem_slots.mp (mem_slots_of_matching hsome)).1
    rw [htable, clearReservation_reservations, Function.update_self] at hvalid
    cases hvalid

end Exact

/-! ## Threads -/

/-- Threads on the hart that each increment one word, and the trap handler between them. -/
structure Slices (Thread : Type) where
  vm : Vm
  ops : List Op
  /-- The thread that runs, if it is not the handler. -/
  running : Option Thread
  /-- What the last `lr.w` of each thread has loaded. -/
  loaded : Thread → Word
  /-- How often an `sc.w` has told its thread that the increment is done. -/
  done : Nat

/--
The threads run in turns on the word at `addr`, which is at `offset` in main
memory and holds `initial` at first.  Their retry loops load the word, add one
and store it back, each on its own registers; whatever is between these
operations leaves the table and the word alone.  The handler may use the table
for itself, and has an operation of its own behind an `lr.w` of the word before
it returns.
-/
inductive Sliced {Thread : Type} [DecidableEq Thread] (addr : Word) (offset : Nat)
    (initial : Word) : Slices Thread → Prop
  | start {s : Slices Thread} (run : Run s.vm []) (ops : s.ops = []) (done : s.done = 0)
      (word : wordAt s.vm.mainMem offset = initial) : Sliced addr offset initial s
  | lr {s : Slices Thread} {t : Vm} {thread : Thread} {rs1 rs2 rd : RegIndex}
      (sliced : Sliced addr offset initial s) (running : s.running = some thread)
      (address : s.vm.hart.registers rs1 = addr) (ram : WordInRam s.vm addr offset)
      (ran : lrSlowpath rs1 rs2 rd s.vm = .ok () t) :
      Sliced addr offset initial { s with
        vm := t
        ops := .lr addr :: s.ops
        loaded := Function.update s.loaded thread (t.hart.registers rd) }
  | sc {s : Slices Thread} {t : Vm} {thread : Thread} {rs1 rs2 rd : RegIndex}
      (sliced : Sliced addr offset initial s) (running : s.running = some thread)
      (address : s.vm.hart.registers rs1 = addr) (ram : WordInRam s.vm addr offset)
      (value : s.vm.hart.registers rs2 = s.loaded thread + 1) (settled : Settled s.ops addr)
      (ran : scSlowpath rs1 rs2 rd s.vm = .ok () t) :
      Sliced addr offset initial { s with
        vm := t
        ops := .sc addr :: s.ops
        done := if t.hart.registers rd = 0 then s.done + 1 else s.done }
  /-- Control goes to the handler. -/
  | trap {s : Slices Thread} (sliced : Sliced addr offset initial s) (level : BitVec 2)
      (cause tval : Word) :
      Sliced addr offset initial { s with
        vm := { s.vm with hart := s.vm.hart.takeTrap level cause tval }
        running := none }
  | handlerLr {s : Slices Thread} {t : Vm} {rs1 rs2 rd : RegIndex}
      (sliced : Sliced addr offset initial s) (running : s.running = none)
      (ran : lrSlowpath rs1 rs2 rd s.vm = .ok () t) :
      Sliced addr offset initial { s with
        vm := t
        ops := .lr (s.vm.hart.registers rs1) :: s.ops }
  | handlerSc {s : Slices Thread} {t : Vm} {rs1 rs2 rd : RegIndex}
      (sliced : Sliced addr offset initial s) (running : s.running = none)
      (ran : scSlowpath rs1 rs2 rd s.vm = .ok () t)
      (same : wordAt t.mainMem offset = wordAt s.vm.mainMem offset) :
      Sliced addr offset initial { s with
        vm := t
        ops := .sc (s.vm.hart.registers rs1) :: s.ops }
  /-- The handler returns, to the same thread or another. -/
  | resume {s : Slices Thread} (sliced : Sliced addr offset initial s)
      (running : s.running = none) (released : ¬Paired s.ops addr) (thread : Thread) :
      Sliced addr offset initial { s with running := some thread }
  | other {s : Slices Thread} {t : Vm} (sliced : Sliced addr offset initial s)
      (table : SameTable s.vm t) (same : wordAt t.mainMem offset = wordAt s.vm.mainMem offset) :
      Sliced addr offset initial { s with vm := t }

section Memory

variable {vm t : Vm} {va : Word} {offset : Nat} {rs1 rs2 rd : RegIndex}

theorem mmuRead32Aligned_ok {loaded : Word} (h : mmuRead32Aligned va vm = .ok loaded t) :
    ¬Misaligned va ∧ t.mainMem = vm.mainMem := by
  have haligned : ¬Misaligned va := by
    intro hmis
    rw [mmuRead32Aligned_of_misaligned hmis] at h
    cases h
  constructor
  · exact haligned
  · have hframe : Wp (vmread va .b4) (fun _ u => u.mainMem = vm.mainMem) (fun _ _ => True) vm := by
      unfold Wp
      rw [vmread_apply]
      cases target vm va with
      | region pmr pa =>
          refine wp_mono (pmrRead_frame pmr pa .b4 (touched vm va)) ?_ fun _ _ _ => True.intro
          intro _ u hu
          rw [hu]
          exact touched_mainMem vm va
      | pageFault => exact True.intro
      | exit => exact True.intro
    rw [mmuRead32Aligned_of_aligned haligned] at h
    have hread : Wp (vmread va .b4 >>= fun value => pure (value.setWidth 32))
        (fun _ u => u.mainMem = vm.mainMem) (fun _ _ => True) vm := by
      rw [wp_bind]
      exact hframe
    exact (wp_of_ok h).mp hread

theorem lrSlowpath_mainMem (h : lrSlowpath rs1 rs2 rd vm = .ok () t) : t.mainMem = vm.mainMem := by
  obtain ⟨loaded, u, hread, rfl⟩ := lrSlowpath_loaded h
  exact (mmuRead32Aligned_ok hread).2

/-- What an `lr.w` of a word in main memory delivers. -/
theorem lrSlowpath_loads (hram : WordInRam vm (vm.hart.registers rs1) offset)
    (h : lrSlowpath rs1 rs2 rd vm = .ok () t) :
    t.hart.registers rd = wordAt vm.mainMem offset := by
  obtain ⟨loaded, u, hread, rfl⟩ := lrSlowpath_loaded h
  have haligned := (mmuRead32Aligned_ok hread).1
  rw [mmuRead32Aligned_ram haligned hram] at hread
  cases hread
  show Function.update _ rd _ rd = _
  rw [Function.update_self]

/-- What an `sc.w` of a word in main memory reports, and what it has stored then. -/
theorem scSlowpath_stored (hram : WordInRam vm (vm.hart.registers rs1) offset)
    (h : scSlowpath rs1 rs2 rd vm = .ok () t) :
    t.hart.registers rd = 1 ∧ t.mainMem = vm.mainMem ∨
      t.hart.registers rd = 0 ∧ wordAt t.mainMem offset = vm.hart.registers rs2 := by
  rcases scSlowpath_ok h with ⟨-, rfl⟩ | ⟨idx, u, -, hwrite, rfl⟩
  · left
    constructor
    · show Function.update _ rd _ rd = _
      rw [Function.update_self]
    · rfl
  · right
    have haligned : ¬Misaligned (vm.hart.registers rs1) := by
      intro hmis
      rw [mmuWrite32Aligned_of_misaligned hmis] at hwrite
      cases hwrite
    have hvalue : ((vm.hart.registers rs2).setWidth 64).toNat = (vm.hart.registers rs2).toNat := by
      have hlt := (vm.hart.registers rs2).isLt
      rw [BitVec.toNat_setWidth]
      omega
    -- what the store sees differs from `vm` in `rd` only
    obtain ⟨cleared, hcleared⟩ : ∃ s : Vm, s = { vm with hart := vm.hart.setReg rd 0x0 } := ⟨_, rfl⟩
    have hoffset : ramOffset cleared (vm.hart.registers rs1) = some offset := by
      rw [hcleared]
      exact hram.translates
    have hfits : offset + AccessSize.b4.bytes ≤ cleared.mainMem.size := by
      rw [hcleared]
      exact hram.fits
    have hrd : cleared.hart.registers rd = 0 := by
      rw [hcleared]
      show Function.update _ rd _ rd = _
      rw [Function.update_self]
    rw [← hcleared, mmuWrite32Aligned_of_aligned haligned, vmwrite_ram hoffset, if_pos hfits]
      at hwrite
    cases hwrite
    constructor
    · have hregs : (touched cleared (vm.hart.registers rs1)).hart.registers =
          cleared.hart.registers :=
        touched_field (fun u => u.hart.registers) (fun _ => rfl) _
      exact (congrFun hregs rd).trans hrd
    · show wordAt { cleared.mainMem with
        bytes := storeBytes cleared.mainMem.bytes offset 4 _ } offset = _
      rw [hvalue]
      exact wordAt_storeBytes cleared.mainMem offset _

end Memory

section Threads

variable {Thread : Type} {addr : Word} {offset : Nat} {initial : Word}
  {s : Slices Thread}

theorem Sliced.run [DecidableEq Thread] (h : Sliced addr offset initial s) : Run s.vm s.ops := by
  induction h with
  | start run ops _ _ =>
      rw [ops]
      exact run
  | lr _ _ address _ ran ih =>
      rw [← address]
      exact ih.lr ran
  | sc _ _ address _ _ _ ran ih =>
      rw [← address]
      exact ih.sc ran
  | trap _ level cause tval ih => exact ih.trap level cause tval
  | handlerLr _ _ ran ih => exact ih.lr ran
  | handlerSc _ _ ran _ ih => exact ih.sc ran
  | resume _ _ _ _ ih => exact ih
  | other _ table _ ih => exact ih.other table

/-- The word counts the increments, and the thread that may store has read it. -/
structure Counted (addr : Word) (offset : Nat) (initial : Word) (s : Slices Thread) : Prop where
  word : wordAt s.vm.mainMem offset = initial + BitVec.ofNat 32 s.done
  fresh : ∀ thread, s.running = some thread → Paired s.ops addr →
    s.loaded thread = wordAt s.vm.mainMem offset

theorem not_paired_sc (a : Word) (ops : List Op) (addr : Word) : ¬Paired (.sc a :: ops) addr := by
  intro hpaired
  cases hpaired

theorem Counted.sc {t : Vm} {thread : Thread} {rs1 rs2 rd : RegIndex}
    (h : Counted addr offset initial s) (run : Run s.vm s.ops) (running : s.running = some thread)
    (address : s.vm.hart.registers rs1 = addr) (ram : WordInRam s.vm addr offset)
    (value : s.vm.hart.registers rs2 = s.loaded thread + 1) (settled : Settled s.ops addr)
    (ran : scSlowpath rs1 rs2 rd s.vm = .ok () t) :
    wordAt t.mainMem offset =
      initial + BitVec.ofNat 32 (if t.hart.registers rd = 0 then s.done + 1 else s.done) := by
  subst address
  rcases scSlowpath_stored ram ran with ⟨hrd, hmem⟩ | ⟨hrd, hword⟩
  · rw [hrd, if_neg (by decide), hmem, h.word]
  · rw [hrd, if_pos rfl]
    rcases settled with hpaired | hnone
    · have hfresh := h.fresh thread running hpaired
      calc wordAt t.mainMem offset = s.loaded thread + 1 := hword.trans value
        _ = initial + BitVec.ofNat 32 s.done + 1 := by rw [hfresh, h.word]
        _ = initial + (BitVec.ofNat 32 s.done + BitVec.ofNat 32 1) := BitVec.add_assoc _ _ _
        _ = initial + BitVec.ofNat 32 (s.done + 1) := by rw [BitVec.ofNat_add]
    · -- nobody waits for this store, so it has been refused
      rw [run.scSlowpath_fails hnone] at ran
      cases ran
      have hone : Function.update s.vm.hart.registers rd 0x1 rd = 0 := hrd
      rw [Function.update_self] at hone
      exact absurd hone (by decide)

theorem Sliced.counted [DecidableEq Thread] (h : Sliced addr offset initial s) :
    Counted addr offset initial s := by
  induction h with
  | start _ ops done word =>
      constructor
      · rw [word, done]
        exact (BitVec.add_zero _).symm
      · intro _ _ hpaired
        rw [ops] at hpaired
        cases hpaired
  | @lr s t thread rs1 rs2 rd _ running address ram ran ih =>
      have hmem := lrSlowpath_mainMem ran
      constructor
      · show wordAt t.mainMem offset = _
        rw [hmem]
        exact ih.word
      · intro other hother _
        obtain rfl := Option.some.inj (running.symm.trans hother)
        show Function.update s.loaded thread _ thread = wordAt t.mainMem offset
        subst address
        rw [Function.update_self, hmem]
        exact lrSlowpath_loads ram ran
  | sc sliced running address ram value settled ran ih =>
      constructor
      · exact ih.sc sliced.run running address ram value settled ran
      · exact fun _ _ hpaired => absurd hpaired (not_paired_sc _ _ _)
  | trap _ level cause tval ih =>
      constructor
      · exact ih.word
      · intro _ hrunning
        cases hrunning
  | @handlerLr s t _ _ _ _ running ran ih =>
      constructor
      · show wordAt t.mainMem offset = _
        rw [lrSlowpath_mainMem ran]
        exact ih.word
      · intro thread hrunning
        rw [running] at hrunning
        cases hrunning
  | handlerSc _ running ran same ih =>
      constructor
      · exact same.trans ih.word
      · exact fun _ _ hpaired => absurd hpaired (not_paired_sc _ _ _)
  | resume _ running released thread ih =>
      constructor
      · exact ih.word
      · exact fun _ _ hpaired => absurd hpaired released
  | other _ table same ih =>
      constructor
      · exact same.trans ih.word
      · intro thread hrunning hpaired
        exact (ih.fresh thread hrunning hpaired).trans same.symm

end Threads

/--
In every run, an `sc.w` that is settled succeeds only right behind the `lr.w`
of its address, and otherwise writes 1 to `rd` and nothing else.  Threads whose
stores are settled lose no increment.  As long as no `lr.w` has found the table
full, a store that is not settled is let through.
-/
theorem lr_sc_paired {vm : Vm} {ops : List Op} (h : Run vm ops) :
    (∀ rs1 rs2 rd : RegIndex, Settled ops (vm.hart.registers rs1) →
      ¬Paired ops (vm.hart.registers rs1) →
      scSlowpath rs1 rs2 rd vm = .ok () { vm with hart := vm.hart.setReg rd 0x1 }) ∧
    (∀ (Thread : Type) [DecidableEq Thread] (addr : Word) (offset : Nat) (initial : Word)
      (s : Slices Thread), s.vm = vm → s.ops = ops → Sliced addr offset initial s →
      wordAt vm.mainMem offset = initial + BitVec.ofNat 32 s.done) ∧
    (Fits ops → vm.hart.hartId < 256 → ∀ rs1 rs2 rd : RegIndex,
      ¬Settled ops (vm.hart.registers rs1) →
      scSlowpath rs1 rs2 rd vm ≠ .ok () { vm with hart := vm.hart.setReg rd 0x1 }) := by
  refine ⟨?_, ?_, ?_⟩
  · intro rs1 rs2 rd hsettled hnot
    rcases hsettled with hpaired | hnone
    · exact absurd hpaired hnot
    · exact h.scSlowpath_fails hnone
  · intro Thread _ addr offset initial s hvm _ hsliced
    rw [← hvm]
    exact hsliced.counted.word
  · intro hfits hid rs1 rs2 rd hsettled
    apply h.scSlowpath_stores hfits hid
    exact fun hnone => hsettled (.inr hnone)

/-- A machine whose `x1` and `x2` point to two words of main memory, with 1 in `x3`. -/
def sharedVm : Vm :=
  let vm := virtualMachineInit (fun _ => 0) fun _ => 0
  { vm with
    hart := ((vm.hart.setReg 1 0x80000000).setReg 2 0x80000004).setReg 3 1 }

theorem run_sharedVm : Run sharedVm [] :=
  .start fun _ => rfl

section Concrete

variable {vm : Vm} {ops : List Op} {addr : Word}

theorem Run.lr_finalState (h : Run vm ops) (rs1 rs2 rd : RegIndex)
    (haddr : vm.hart.registers rs1 = addr) (hok : isOk (lrSlowpath rs1 rs2 rd vm) = true) :
    Run (finalState (lrSlowpath rs1 rs2 rd vm)) (.lr addr :: ops) := by
  obtain ⟨_, hran⟩ := eq_ok_of_isOk hok
  rw [← haddr]
  exact h.lr hran

theorem Run.sc_finalState (h : Run vm ops) (rs1 rs2 rd : RegIndex)
    (haddr : vm.hart.registers rs1 = addr) (hok : isOk (scSlowpath rs1 rs2 rd vm) = true) :
    Run (finalState (scSlowpath rs1 rs2 rd vm)) (.sc addr :: ops) := by
  obtain ⟨_, hran⟩ := eq_ok_of_isOk hok
  rw [← haddr]
  exact h.sc hran

end Concrete

/-- `lr.w x5, (x1)` and `sc.w x5, x3, (x1)`. -/
def incrementedVm : Vm :=
  finalState (scSlowpath 1 3 5 (finalState (lrSlowpath 1 0 5 sharedVm)))

theorem run_incrementedVm : Run incrementedVm [.sc 0x80000000, .lr 0x80000000] := by
  apply Run.sc_finalState _ 1 3 5 (by decide +kernel) (by decide +kernel)
  exact run_sharedVm.lr_finalState 1 0 5 rfl (by decide +kernel)

/-- Two threads, of which the first has run its loop once. -/
theorem sliced_incrementedVm :
    ∃ s : Slices Bool, Sliced 0x80000000 0 0 s ∧ s.vm = incrementedVm ∧
      s.ops = [.sc 0x80000000, .lr 0x80000000] ∧ s.done = 1 := by
  have hstart : Sliced 0x80000000 0 0
      (⟨sharedVm, [], some false, fun _ => 0, 0⟩ : Slices Bool) :=
    .start run_sharedVm rfl rfl (by decide +kernel)
  have hlr : isOk (lrSlowpath 1 0 5 sharedVm) = true := by decide +kernel
  have hsc : isOk (scSlowpath 1 3 5 (finalState (lrSlowpath 1 0 5 sharedVm))) = true := by
    decide +kernel
  have hram : WordInRam sharedVm 0x80000000 0 := ⟨by decide +kernel, by decide⟩
  have hram' : WordInRam (finalState (lrSlowpath 1 0 5 sharedVm)) 0x80000000 0 :=
    ⟨by decide +kernel, by decide +kernel⟩
  have haddr : (finalState (lrSlowpath 1 0 5 sharedVm)).hart.registers 1 = 0x80000000 := by
    decide +kernel
  have hvalue : (finalState (lrSlowpath 1 0 5 sharedVm)).hart.registers 3 =
      (finalState (lrSlowpath 1 0 5 sharedVm)).hart.registers 5 + 1 := by
    decide +kernel
  have hdone : incrementedVm.hart.registers 5 = 0 := by decide +kernel
  obtain ⟨_, hlr⟩ := eq_ok_of_isOk hlr
  obtain ⟨_, hsc⟩ := eq_ok_of_isOk hsc
  have hfirst : sharedVm.hart.registers 1 = 0x80000000 := rfl
  have hreserved := hstart.lr rfl hfirst hram hlr
  have hstored := hreserved.sc rfl haddr hram' hvalue (.inl rfl) hsc
  exact ⟨_, hstored, rfl, rfl, if_pos hdone⟩

/-- The increment is in memory, and a second `sc.w` of the same reservation is refused. -/
theorem lr_sc_paired_increment :
    wordAt incrementedVm.mainMem 0 = 1 ∧
      scSlowpath 1 3 6 incrementedVm =
        .ok () { incrementedVm with hart := incrementedVm.hart.setReg 6 0x1 } := by
  have haddr : incrementedVm.hart.registers 1 = 0x80000000 := by decide +kernel
  have hpaired := lr_sc_paired run_incrementedVm
  constructor
  · obtain ⟨s, hsliced, hvm, hops, hdone⟩ := sliced_incrementedVm
    have hword := hpaired.2.1 Bool _ _ _ s hvm hops hsliced
    rw [hdone] at hword
    exact hword
  · apply hpaired.1
    · rw [haddr]
      exact .inr (by decide)
    · exact not_paired_sc _ _ _

/-- A thread loads the first word, and the handler stores to the second. -/
def preemptedVm : Vm :=
  finalState (scSlowpath 2 0 6 (finalState (lrSlowpath 1 0 5 sharedVm)))

/-- Another thread increments the first word, and the handler stores to the second again. -/
def resumedVm : Vm :=
  finalState (scSlowpath 2 0 6
    (finalState (scSlowpath 1 3 8 (finalState (lrSlowpath 1 0 7 preemptedVm)))))

theorem run_resumedVm :
    Run resumedVm [.sc 0x80000004, .sc 0x80000000, .lr 0x80000000, .sc 0x80000004,
      .lr 0x80000000] := by
  apply Run.sc_finalState _ 2 0 6 (by decide +kernel) (by decide +kernel)
  apply Run.sc_finalState _ 1 3 8 (by decide +kernel) (by decide +kernel)
  apply Run.lr_finalState _ 1 0 7 (by decide +kernel) (by decide +kernel)
  apply Run.sc_finalState _ 2 0 6 (by decide +kernel) (by decide +kernel)
  exact run_sharedVm.lr_finalState 1 0 5 rfl (by decide +kernel)

/--
Back in the first thread, its `sc.w` goes through with the slot it has kept.
Both threads have been told that their increment is done, and the word is 1.
-/
theorem lr_sc_loses_update :
    resumedVm.hart.registers 8 = 0 ∧
      (finalState (scSlowpath 1 3 9 resumedVm)).hart.registers 9 = 0 ∧
      wordAt (finalState (scSlowpath 1 3 9 resumedVm)).mainMem 0 = 1 ∧
      ¬∀ (vm : Vm) (ops : List Op), Run vm ops → ∀ rs1 rs2 rd : RegIndex,
        ¬Paired ops (vm.hart.registers rs1) →
        scSlowpath rs1 rs2 rd vm = .ok () { vm with hart := vm.hart.setReg rd 0x1 } := by
  have hsecond : resumedVm.hart.registers 8 = 0 := by decide +kernel
  have hfirst : (finalState (scSlowpath 1 3 9 resumedVm)).hart.registers 9 = 0 := by
    decide +kernel
  have hword : wordAt (finalState (scSlowpath 1 3 9 resumedVm)).mainMem 0 = 1 := by
    decide +kernel
  refine ⟨hsecond, hfirst, hword, ?_⟩
  intro hrefused
  rw [hrefused resumedVm _ run_resumedVm 1 3 9 (not_paired_sc _ _ _)] at hfirst
  have hone : Function.update resumedVm.hart.registers 9 0x1 9 = 0 := hfirst
  rw [Function.update_self] at hone
  exact absurd hone (by decide)

end Zelda.Proofs.Reservations
