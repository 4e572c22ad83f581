import Zelda.Vmm.Init
/-!
# The pc mapping array as a finite map

`comparing_mapping_item` is the sign of a wrapped difference.  On addresses
that lie in one half of the address space it is a total order, binary
insertion keeps the array sorted and binary search finds what was added.
Across a wider spread it is not transitive and a stored address can be missed.
-/

namespace Zelda.Proofs.MappingArray

open Zelda.Vmm
open Zelda.Lib.BinarySearch

/-! ## The comparator inside a window -/

/-- `a` lies in the half of the address space that starts at `base`. -/
def InWindow (base a : Word) : Prop :=
  (a - base).toNat < 2 ^ 31

instance (base a : Word) : Decidable (InWindow base a) :=
  inferInstanceAs (Decidable (_ < _))

theorem comparingMappingItem_eq {base a b : Word} (ha : InWindow base a) (hb : InWindow base b) :
    comparingMappingItem a b = (a - base).toNat - (b - base).toNat := by
  have hsub : a - b = (a - base) - (b - base) := (sub_sub_sub_cancel_right a b base).symm
  unfold InWindow at ha hb
  rw [comparingMappingItem, hsub, BitVec.toInt_eq_toNat_cond, BitVec.toNat_sub]
  generalize (a - base).toNat = x at ha ⊢
  generalize (b - base).toNat = y at hb ⊢
  split <;> omega

theorem eq_of_comparingMappingItem_eq_zero {a b : Word} (h : comparingMappingItem a b = 0) :
    a = b := by
  have hsub : a - b = 0 := BitVec.eq_of_toInt_eq (by simpa [comparingMappingItem] using h)
  exact sub_eq_zero.mp hsub

@[simp] theorem comparingMappingItem_self (a : Word) : comparingMappingItem a a = 0 := by
  simp [comparingMappingItem]

/-! ## Sorted arrays -/

/-- `a` sorts strictly before `b`, whichever way the two are compared. -/
def Before (a b : Word) : Prop :=
  comparingMappingItem a b < 0 ∧ 0 < comparingMappingItem b a

/-- The array is sorted, for every pair of its items. -/
def Sorted (mappings : List MappingItem) : Prop :=
  mappings.Pairwise fun x y => Before x.guestPc y.guestPc

theorem before_iff_of_inWindow {base a b : Word} (ha : InWindow base a) (hb : InWindow base b) :
    Before a b ↔ (a - base).toNat < (b - base).toNat := by
  rw [Before, comparingMappingItem_eq ha hb, comparingMappingItem_eq hb ha]
  omega

/-- What `SEARCH` sees at index `i`. -/
def probe (mappings : List MappingItem) (address : Word) (i : Nat) : Option Int :=
  mappings[i]?.map fun item => comparingMappingItem address item.guestPc

theorem probe_of_lt {mappings : List MappingItem} {i : Nat} (address : Word)
    (h : i < mappings.length) :
    probe mappings address i = some (comparingMappingItem address mappings[i].guestPc) := by
  simp [probe, h]

theorem searchTranslationItem_def (mappings : List MappingItem) (address : Word) :
    searchTranslationItem mappings address =
      match search (probe mappings address) mappings.length with
      | some (some i) => mappings[i]?
      | _ => none := rfl

/-- An address that is not in the array is never found, sorted or not. -/
theorem searchTranslationItem_eq_none {mappings : List MappingItem} {address : Word}
    (h : ∀ item ∈ mappings, item.guestPc ≠ address) :
    searchTranslationItem mappings address = none := by
  have hsearch : search (probe mappings address) mappings.length = some none := by
    apply search_eq_none
    intro i hi
    refine ⟨_, probe_of_lt address hi, fun hz => ?_⟩
    exact h _ (List.getElem_mem hi) (eq_of_comparingMappingItem_eq_zero hz).symm
  rw [searchTranslationItem_def, hsearch]

/-- Whatever is found has the address searched for. -/
theorem searchTranslationItem_sound {mappings : List MappingItem} {address : Word}
    {item : MappingItem} (h : searchTranslationItem mappings address = some item) :
    item ∈ mappings ∧ item.guestPc = address := by
  rw [searchTranslationItem_def] at h
  cases hs : search (probe mappings address) mappings.length with
  | none => simp [hs] at h
  | some found =>
      cases found with
      | none => simp [hs] at h
      | some i =>
          obtain ⟨hi, hz⟩ := search_sound hs
          rw [probe_of_lt address hi] at hz
          have hitem : mappings[i] = item := by simpa [hs, hi] using h
          subst hitem
          exact ⟨List.getElem_mem hi,
            (eq_of_comparingMappingItem_eq_zero (Option.some.inj hz)).symm⟩

/-- In a sorted array every item is found under its own address. -/
theorem searchTranslationItem_of_mem {mappings : List MappingItem} (hs : Sorted mappings)
    {item : MappingItem} (hmem : item ∈ mappings) :
    searchTranslationItem mappings item.guestPc = some item := by
  obtain ⟨i, hi, rfl⟩ := List.getElem_of_mem hmem
  have hpair := List.pairwise_iff_getElem.mp hs
  have hsigns : SignsSorted
      (fun k => (probe mappings mappings[i].guestPc k).getD 0) mappings.length := by
    intro j k hjk hk hle
    simp only [probe_of_lt _ (Nat.lt_trans hjk hk), probe_of_lt _ hk, Option.getD_some] at hle ⊢
    -- a nonpositive sign at `j` puts `j`, hence `k`, at or after the target
    have hij : i ≤ j := by
      by_contra hlt
      have := (hpair j i (by omega) hi (by omega)).2
      omega
    exact (hpair i k hi hk (by omega)).1
  have hfound : search (probe mappings mappings[i].guestPc) mappings.length = some (some i) := by
    apply search_complete _ hsigns hi
    · simp [probe_of_lt _ hi]
    · intro k hk
      simp [probe_of_lt _ hk]
  rw [searchTranslationItem_def, hfound]
  simp [hi]

/-! ## Insertion -/

theorem mappingPosition_le (mappings : List MappingItem) (address : Word) :
    mappingPosition mappings address ≤ mappings.length :=
  insertPosition_le _ _ _

theorem mem_insertMappingItem {mappings : List MappingItem} {item x : MappingItem} :
    x ∈ insertMappingItem mappings item ↔ x = item ∨ x ∈ mappings :=
  List.mem_insertIdx (mappingPosition_le _ _)

@[simp] theorem length_insertMappingItem (mappings : List MappingItem) (item : MappingItem) :
    (insertMappingItem mappings item).length = mappings.length + 1 :=
  List.length_insertIdx_of_le_length (mappingPosition_le _ _) _

/-- In a window, `INSERTION_SORT` puts a new address after exactly the smaller ones. -/
theorem mappingPosition_spec {base address : Word} {mappings : List MappingItem}
    (hs : Sorted mappings) (hw : ∀ item ∈ mappings, InWindow base item.guestPc)
    (ha : InWindow base address) (hnew : ∀ item ∈ mappings, item.guestPc ≠ address)
    (i : Nat) (hi : i < mappings.length) :
    if i < mappingPosition mappings address then Before mappings[i].guestPc address
    else Before address mappings[i].guestPc := by
  let key (a : Word) := (a - base).toNat
  let p := mappings.findIdx fun item => key address < key item.guestPc
  have hpair := List.pairwise_iff_getElem.mp hs
  have hkeys : ∀ j k (hj : j < mappings.length) (hk : k < mappings.length), j < k →
      key mappings[j].guestPc < key mappings[k].guestPc := by
    intro j k hj hk hjk
    exact (before_iff_of_inWindow (hw _ (List.getElem_mem hj)) (hw _ (List.getElem_mem hk))).mp
      (hpair j k hj hk hjk)
  have hlow : ∀ j (hj : j < mappings.length), j < p → Before mappings[j].guestPc address := by
    intro j hj hjp
    have hle : ¬key address < key mappings[j].guestPc := by
      simpa using List.not_of_lt_findIdx hjp
    have hne : key mappings[j].guestPc ≠ key address := fun heq =>
      hnew _ (List.getElem_mem hj) (sub_left_injective (BitVec.eq_of_toNat_eq heq))
    rw [before_iff_of_inWindow (hw _ (List.getElem_mem hj)) ha]
    exact Nat.lt_of_le_of_ne (Nat.not_lt.mp hle) hne
  have hhigh : ∀ j (hj : j < mappings.length), p ≤ j → Before address mappings[j].guestPc := by
    intro j hj hpj
    have hp : p < mappings.length := by omega
    have hfirst : key address < key mappings[p].guestPc := by
      simpa using List.findIdx_getElem (w := hp)
    rw [before_iff_of_inWindow ha (hw _ (List.getElem_mem hj))]
    rcases Nat.eq_or_lt_of_le hpj with rfl | hlt
    · exact hfirst
    · exact Nat.lt_trans hfirst (hkeys p j hp hj hlt)
  have hpos : mappingPosition mappings address = p := by
    apply insertPosition_eq List.findIdx_le_length
    · intro j hjp
      have hj : j < mappings.length := Nat.lt_of_lt_of_le hjp List.findIdx_le_length
      have := hlow j hj hjp
      simp only [hj, List.getElem?_eq_getElem, Option.map_some, Option.getD_some]
      exact ⟨this.2, this.1⟩
    · intro j hpj hj
      have := hhigh j hj hpj
      simp only [hj, List.getElem?_eq_getElem, Option.map_some, Option.getD_some]
      exact this
  rw [hpos]
  split_ifs with h
  · exact hlow i hi h
  · exact hhigh i hi (by omega)

theorem sorted_insertMappingItem {base : Word} {mappings : List MappingItem} {item : MappingItem}
    (hs : Sorted mappings) (hw : ∀ x ∈ mappings, InWindow base x.guestPc)
    (ha : InWindow base item.guestPc) (hnew : ∀ x ∈ mappings, x.guestPc ≠ item.guestPc) :
    Sorted (insertMappingItem mappings item) := by
  have hspec := mappingPosition_spec hs hw ha hnew
  apply pairwise_insertIdx hs (mappingPosition_le _ _)
  · intro i hi hip
    simpa [hip] using hspec i hi
  · intro i hi hpi
    simpa [Nat.not_lt.mpr hpi] using hspec i hi

/-! ## Runs -/

/-- The abstract content: where each address added since the last flush went. -/
abbrev Contents := Word → Option Nat

/--
A run of flushes and successful additions, with what has been added since the
last flush.  Each address is added at most once between flushes; in between,
anything that leaves the mapping array alone may happen.  `Allowed` restricts
the additions by the contents before them.
-/
inductive Run (hc : HostCode) (Allowed : Contents → Word → Prop) : Hart → Contents → Prop
  | start {h : Hart} (empty : h.pcMappings = []) : Run hc Allowed h fun _ => none
  | flush {h : Hart} {m : Contents} (run : Run hc Allowed h m) :
      Run hc Allowed h.flushTranslationCache fun _ => none
  | add {h h' : Hart} {m : Contents} {address : Word} {indicator : Indicator}
      (run : Run hc Allowed h m) (fresh : m address = none) (allowed : Allowed m address)
      (added : h.addTranslationItem hc address indicator = some h') :
      Run hc Allowed h' (Function.update m address (some h.translationCachePtr))
  | other {h h' : Hart} {m : Contents} (run : Run hc Allowed h m)
      (same : h'.pcMappings = h.pcMappings) : Run hc Allowed h' m

/-- With the new address, everything added since the last flush lies in one window. -/
def OneWindow (m : Contents) (address : Word) : Prop :=
  ∃ base, InWindow base address ∧ ∀ a, (m a).isSome → InWindow base a

/-- The array is an exact finite map. -/
def ExactMap (h : Hart) (m : Contents) : Prop :=
  ∀ a, (searchTranslationItem h.pcMappings a).map (fun item => (item.guestPc, item.tcOffset)) =
    (m a).map fun offset => (a, offset)

/-- The array holds exactly the abstract contents. -/
structure Holds (h : Hart) (m : Contents) : Prop where
  sorted : Sorted h.pcMappings
  sound : ∀ item ∈ h.pcMappings, m item.guestPc = some item.tcOffset
  complete : ∀ a offset, m a = some offset →
    ∃ item ∈ h.pcMappings, item.guestPc = a ∧ item.tcOffset = offset

theorem Holds.exactMap {h : Hart} {m : Contents} (hold : Holds h m) : ExactMap h m := by
  intro a
  cases hm : m a with
  | some offset =>
      obtain ⟨item, hmem, rfl, rfl⟩ := hold.complete a offset hm
      rw [searchTranslationItem_of_mem hold.sorted hmem]
      rfl
  | none =>
      have hnone : searchTranslationItem h.pcMappings a = none := by
        apply searchTranslationItem_eq_none
        rintro item hmem rfl
        rw [hold.sound item hmem] at hm
        cases hm
      rw [hnone]
      rfl

theorem pcMappings_addTranslationItem {hc : HostCode} {h h' : Hart} {address : Word}
    {indicator : Indicator} (hadd : h.addTranslationItem hc address indicator = some h') :
    h'.pcMappings = insertMappingItem h.pcMappings
      { guestPc := address, tcOffset := h.translationCachePtr, ghostTag := h.addressSpaceTag } := by
  unfold Hart.addTranslationItem at hadd
  split_ifs at hadd
  obtain rfl := Option.some.inj hadd
  rfl

theorem Holds.add {hc : HostCode} {h h' : Hart} {m : Contents} {address : Word}
    {indicator : Indicator} (hold : Holds h m) (fresh : m address = none)
    (hw : OneWindow m address) (hadd : h.addTranslationItem hc address indicator = some h') :
    Holds h' (Function.update m address (some h.translationCachePtr)) := by
  obtain ⟨base, ha, hm⟩ := hw
  have hnew : ∀ item ∈ h.pcMappings, item.guestPc ≠ address := by
    rintro item hmem rfl
    rw [hold.sound item hmem] at fresh
    cases fresh
  have hwin : ∀ item ∈ h.pcMappings, InWindow base item.guestPc := fun item hmem =>
    hm _ (by rw [hold.sound item hmem]; rfl)
  have hmap := pcMappings_addTranslationItem hadd
  refine ⟨?_, ?_, ?_⟩
  · rw [hmap]
    exact sorted_insertMappingItem hold.sorted hwin ha hnew
  · intro item hmem
    rw [hmap, mem_insertMappingItem] at hmem
    rcases hmem with rfl | hmem
    · exact Function.update_self ..
    · rw [Function.update_of_ne (hnew item hmem)]
      exact hold.sound item hmem
  · intro a offset hsome
    simp only [hmap, mem_insertMappingItem]
    by_cases haeq : a = address
    · subst haeq
      rw [Function.update_self] at hsome
      exact ⟨_, .inl rfl, rfl, Option.some.inj hsome⟩
    · rw [Function.update_of_ne haeq] at hsome
      obtain ⟨item, hmem, hpc, hoff⟩ := hold.complete a offset hsome
      exact ⟨item, .inr hmem, hpc, hoff⟩

theorem Run.holds {hc : HostCode} {h : Hart} {m : Contents} (run : Run hc OneWindow h m) :
    Holds h m := by
  induction run with
  | start empty =>
      refine ⟨?_, ?_, ?_⟩ <;> simp [empty, Sorted]
  | flush run ih =>
      refine ⟨?_, ?_, ?_⟩ <;> simp [Hart.flushTranslationCache, Sorted]
  | add run fresh allowed added ih => exact ih.add fresh allowed added
  | other run same ih => exact ⟨same ▸ ih.sorted, same ▸ ih.sound, same ▸ ih.complete⟩

/--
As long as the addresses cached between two flushes lie in one half of the
address space, the mapping array is an exact finite map in every state of
every run.
-/
theorem mappingArray_exact {hc : HostCode} {h : Hart} {m : Contents}
    (run : Run hc OneWindow h m) : ExactMap h m :=
  run.holds.exactMap

/-! ## Concrete runs -/

/-- Add the addresses of a list, each of them fresh. -/
def addAll (hc : HostCode) : List Word → Hart → Contents → Option (Hart × Contents)
  | [], h, m => some (h, m)
  | address :: rest, h, m =>
      if m address = none then
        (h.addTranslationItem hc address .addi).bind fun h' =>
          addAll hc rest h' (Function.update m address (some h.translationCachePtr))
      else
        none

/-- A run that adds addresses with a property that the condition follows from. -/
theorem Run.addAll {hc : HostCode} {Allowed : Contents → Word → Prop} {P : Word → Prop}
    (hall : ∀ m a, (∀ b, (m b).isSome → P b) → P a → Allowed m a) {addresses : List Word}
    {h h' : Hart} {m m' : Contents} (run : Run hc Allowed h m) (hm : ∀ b, (m b).isSome → P b)
    (haddresses : ∀ a ∈ addresses, P a) (hadd : addAll hc addresses h m = some (h', m')) :
    Run hc Allowed h' m' := by
  induction addresses generalizing h m with
  | nil =>
      obtain ⟨rfl, rfl⟩ := Prod.mk.inj (Option.some.inj hadd)
      exact run
  | cons address rest ih =>
      rw [MappingArray.addAll] at hadd
      split_ifs at hadd with hfresh
      obtain ⟨h₁, hadded, hrest⟩ := Option.bind_eq_some_iff.mp hadd
      rw [List.forall_mem_cons] at haddresses
      refine ih (run.add hfresh (hall m address hm haddresses.1) hadded) ?_ haddresses.2 hrest
      intro b hb
      by_cases heq : b = address
      · rw [heq]
        exact haddresses.1
      · rw [Function.update_of_ne heq] at hb
        exact hm b hb

/-- The kernel's entry and three addresses of the firmware, not in their order. -/
def firmwareAddresses : List Word :=
  [0x80000000, 0x00004004, 0x00004000, 0x00006000]

theorem mappingArray_exact_firmware :
    ∃ h m, Run evenHostCode OneWindow h m ∧
      h.pcMappings.map (fun item => (item.guestPc, item.tcOffset)) =
        [(0x4000, 512), (0x4004, 256), (0x6000, 768), (0x80000000, 0)] ∧
      m 0x4004 = some 256 ∧ ExactMap h m := by
  have heval : (addAll evenHostCode firmwareAddresses initialHart fun _ => none).map
      (fun (h, m) =>
        (h.pcMappings.map (fun item => (item.guestPc, item.tcOffset)), m 0x4004)) =
        some ([(0x4000, 512), (0x4004, 256), (0x6000, 768), (0x80000000, 0)], some 256) := by
    decide +kernel
  obtain ⟨⟨h, m⟩, hadd, hres⟩ := Option.map_eq_some_iff.mp heval
  obtain ⟨hmappings, hm⟩ := Prod.mk.inj hres
  have hwindow : ∀ m a, (∀ b, (m b).isSome → InWindow 0x4000 b) → InWindow 0x4000 a →
      OneWindow m a :=
    fun _ _ hm ha => ⟨0x4000, ha, hm⟩
  have run : Run evenHostCode OneWindow h m :=
    (Run.start rfl).addAll hwindow (by simp) (by simp [firmwareAddresses, InWindow]) hadd
  exact ⟨h, m, run, hmappings, hm, mappingArray_exact run⟩

/-- Two pages of a program, its stack and a shared library, in the order they were reached. -/
def spreadAddresses : List Word :=
  [0x00010000, 0x00010004, 0x7ff00000, 0x95600000, 0x95600004, 0x95600008]

/-- Without the window, a stored address can be missed. -/
theorem mappingArray_misses_library :
    ¬∀ (h : Hart) (m : Contents),
      Run evenHostCode (fun _ _ => True) h m → ExactMap h m := by
  intro hclaim
  have heval : (addAll evenHostCode spreadAddresses initialHart fun _ => none).map
      (fun (h, m) => (searchTranslationItem h.pcMappings 0x95600004, m 0x95600004)) =
        some (none, some 1024) := by
    decide +kernel
  obtain ⟨⟨h, m⟩, hadd, hres⟩ := Option.map_eq_some_iff.mp heval
  have run : Run evenHostCode (fun _ _ => True) h m :=
    (Run.start rfl).addAll (P := fun _ => True) (fun _ _ _ _ => trivial) (fun _ _ => trivial)
      (fun _ _ => trivial) hadd
  have hexact := hclaim h m run 0x95600004
  obtain ⟨hsearch, hm⟩ := Prod.mk.inj hres
  rw [hsearch, hm] at hexact
  cases hexact

end Zelda.Proofs.MappingArray
