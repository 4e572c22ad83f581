import Zelda.Proofs.AddressSpace
import Zelda.Proofs.FetchFaults
/-!
# Falling through the translation cache

A block that ends with `END_INSTRUCTION` runs on into whatever bytes follow
it.  These have to be the block of the next instruction, emitted right after
it by the same prefetch, or the jumper that closes the prefetch.
-/

namespace Zelda.Proofs.FallThrough

open Zelda.Vmm
open Zelda.Lib.Effect
open Zelda.Lib.X86
open Zelda.Proofs.Callees
open Zelda.Proofs.Frames
open Zelda.Proofs.MappingArray
open Zelda.Proofs.Prefetch

/-! ## Chunks in the cache -/

/-- The whole block of `pc` stands at `offset`, its parameter words filled in. -/
structure BlockAt (hc : HostCode) (h : Hart) (offset : Nat) (pc : Word) (indicator : Indicator)
    (unit : Nat) : Prop where
  code : ∀ k, k < hc.blockSize indicator - 4 * indicator.nrParams →
    h.translationCache (offset + k) = .code (.block pc indicator unit) k
  params : ∀ k, hc.blockSize indicator - 4 * indicator.nrParams ≤ k →
    k < hc.blockSize indicator → ∃ v, h.translationCache (offset + k) = .data v

/-- The jumper stands at `offset`. -/
def JumperAt (hc : HostCode) (h : Hart) (offset : Nat) : Prop :=
  ∀ k, k < hc.jumperSize → h.translationCache (offset + k) = .code .jumper k

/--
For every mapped pc: its block stands where the mapping says, and if it falls
through, the next bytes are the jumper or the block of the next pc from the
same prefetch.
-/
def FallsThroughRight (hc : HostCode) (h : Hart) : Prop :=
  ∀ item ∈ h.pcMappings, ∃ indicator unit,
    BlockAt hc h item.tcOffset item.guestPc indicator unit ∧
    (indicator.fallsThrough = true →
      JumperAt hc h (item.tcOffset + hc.blockSize indicator) ∨
      ∃ next, BlockAt hc h (item.tcOffset + hc.blockSize indicator) (item.guestPc + 4) next unit)

/-- The blocks of `pc`, `pc + 4`, ... up to one that leaves the cache or a jumper. -/
inductive Chain (hc : HostCode) (h : Hart) : Word → Nat → List Indicator → Prop
  | leaves {pc : Word} {offset unit : Nat} {indicator : Indicator}
      (block : BlockAt hc h offset pc indicator unit) (falls : indicator.fallsThrough = false) :
      Chain hc h pc offset [indicator]
  | jumper {pc : Word} {offset unit : Nat} {indicator : Indicator}
      (block : BlockAt hc h offset pc indicator unit) (falls : indicator.fallsThrough = true)
      (jumper : JumperAt hc h (offset + hc.blockSize indicator)) : Chain hc h pc offset [indicator]
  | next {pc : Word} {offset unit : Nat} {indicator : Indicator} {rest : List Indicator}
      (block : BlockAt hc h offset pc indicator unit) (falls : indicator.fallsThrough = true)
      (chain : Chain hc h (pc + 4) (offset + hc.blockSize indicator) rest) :
      Chain hc h pc offset (indicator :: rest)

/-- Run the given blocks one after another, as long as they fall through. -/
def runChain (hc : HostCode) : Nat → List Indicator → Cpu → VmM Unit
  | _, [], _ => pure ()
  | offset, indicator :: rest, c => do
      let vm ← get
      let param := fun i => (vm.hart.tcParam hc offset indicator i).getD 0
      match ← runBlock hc indicator param c with
      | (.fallThrough, c) => runChain hc (offset + hc.blockSize indicator) rest c
      | (.toMonitor, _) => pure ()

/-! ## Emission -/

theorem blockSize_pos (hc : HostCode) (indicator : Indicator) :
    0 < hc.blockSize indicator - 4 * indicator.nrParams := by
  have := hc.params_lt indicator
  omega

/-- Two blocks at one offset are the same block. -/
theorem BlockAt.unique {hc : HostCode} {h : Hart} {offset unit unit' : Nat} {pc pc' : Word}
    {indicator indicator' : Indicator} (hb : BlockAt hc h offset pc indicator unit)
    (hb' : BlockAt hc h offset pc' indicator' unit') : indicator' = indicator ∧ unit' = unit := by
  have h0 := hb.code 0 (blockSize_pos hc indicator)
  rw [hb'.code 0 (blockSize_pos hc indicator')] at h0
  simp only [TcByte.code.injEq, TcChunk.block.injEq] at h0
  exact ⟨h0.1.2.1, h0.1.2.2⟩

theorem BlockAt.congr {hc : HostCode} {h h' : Hart} {offset unit : Nat} {pc : Word}
    {indicator : Indicator} (hb : BlockAt hc h offset pc indicator unit)
    (hsame : ∀ k, k < offset + hc.blockSize indicator →
      h'.translationCache k = h.translationCache k) :
    BlockAt hc h' offset pc indicator unit where
  code k hk := by
    rw [hsame (offset + k) (by omega)]
    exact hb.code k hk
  params k hlow hk := by
    rw [hsame (offset + k) (by omega)]
    exact hb.params k hlow hk

theorem JumperAt.congr {hc : HostCode} {h h' : Hart} {offset : Nat} (hj : JumperAt hc h offset)
    (hsame : ∀ k, k < offset + hc.jumperSize → h'.translationCache k = h.translationCache k) :
    JumperAt hc h' offset := by
  intro k hk
  rw [hsame (offset + k) (by omega)]
  exact hj k hk

/-- `writeParams` turns exactly the words it is given into data. -/
theorem writeParams_cache (h : Hart) (offset : Nat) (params : List Word) (k : Nat) :
    (offset ≤ k ∧ k < offset + 4 * params.length →
      ∃ v, (h.writeParams offset params).translationCache k = .data v) ∧
    (¬(offset ≤ k ∧ k < offset + 4 * params.length) →
      (h.writeParams offset params).translationCache k = h.translationCache k) := by
  induction params generalizing h offset with
  | nil =>
      refine ⟨fun hk => ?_, fun _ => rfl⟩
      simp only [List.length_nil] at hk
      omega
  | cons word rest ih =>
      simp only [Hart.writeParams, List.length_cons]
      obtain ⟨hin, hout⟩ := ih
        { h with
          translationCache := fun k =>
            if offset ≤ k ∧ k < offset + 4 then
              TcByte.data (BitVec.ofNat 8 (word.toNat / 256 ^ (k - offset)))
            else
              h.translationCache k } (offset + 4)
      refine ⟨fun hk => ?_, fun hk => ?_⟩
      · by_cases hrest : offset + 4 ≤ k ∧ k < offset + 4 + 4 * rest.length
        · exact hin hrest
        · rw [hout hrest]
          simp only
          rw [if_pos (by omega)]
          exact ⟨_, rfl⟩
      · rw [hout (by omega)]
        simp only
        rw [if_neg (by omega)]

/-- What committing a fresh address has done to the cache. -/
structure Appended (hc : HostCode) (address : Word) (indicator : Indicator) (h h' : Hart) :
    Prop where
  ptr : h'.translationCachePtr = h.translationCachePtr + hc.blockSize indicator
  below : ∀ k, k < h.translationCachePtr → h'.translationCache k = h.translationCache k
  block : BlockAt hc h' h.translationCachePtr address indicator h.ghostPrefetches
  mappings : ∀ item, item ∈ h'.pcMappings ↔
    item = ⟨address, h.translationCachePtr, h.addressSpaceTag⟩ ∨ item ∈ h.pcMappings
  fits : h.translationCachePtr + hc.blockSize indicator + hc.jumperSize ≤ TRANSLATION_CACHE_SIZE
  units : h'.ghostPrefetches = h.ghostPrefetches

theorem fits_of_hasRoom {hc : HostCode} {h : Hart} {indicator : Indicator}
    (hroom : HasRoom hc h indicator)
    (hcount : h.pcMappings.length < MAX_INSTRUCTIONS_TOTRANSLATE) :
    h.translationCachePtr + hc.blockSize indicator + hc.jumperSize ≤ TRANSLATION_CACHE_SIZE := by
  unfold HasRoom Hart.unoccupiedCacheSize Hart.nrTranslatedInstructions at hroom
  rw [if_pos hcount] at hroom
  omega

/-- A new address is found at the item just added for it. -/
theorem tcOffset_of_fresh {hc : HostCode} {h added : Hart} {address : Word}
    {indicator : Indicator} {item : MappingItem}
    (hadd : h.addTranslationItem hc address indicator = some added)
    (hsearch : searchTranslationItem added.pcMappings address = some item)
    (hfresh : ∀ item ∈ h.pcMappings, item.guestPc ≠ address) :
    item.tcOffset = h.translationCachePtr := by
  obtain ⟨-, -, rfl⟩ := addTranslationItem_eq hadd
  obtain ⟨hmem, hpc⟩ := searchTranslationItem_sound hsearch
  rcases mem_insertMappingItem.mp hmem with rfl | hold
  · rfl
  · exact absurd hpc (hfresh item hold)

theorem appended_of_committed {hc : HostCode} {e : Emitted} {address : Word} {h h' : Hart}
    (hwf : WellFormed e) (hcommit : Committed hc e address h h')
    (hfresh : ∀ item ∈ h.pcMappings, item.guestPc ≠ address) :
    Appended hc address e.indicator h h' := by
  obtain ⟨added, item, hadd, hsearch, rfl⟩ := hcommit
  have hoffset := tcOffset_of_fresh hadd hsearch hfresh
  obtain ⟨hroom, hcount, rfl⟩ := addTranslationItem_eq hadd
  have hparams := hc.params_lt e.indicator
  rw [hoffset, hwf.1]
  set size := hc.blockSize e.indicator
  set ptr := h.translationCachePtr
  have hcache := fun k => writeParams_cache
    { h.copyChunk (.block address e.indicator h.ghostPrefetches) size (4 * e.indicator.nrParams) with
      pcMappings := insertMappingItem h.pcMappings ⟨address, ptr, h.addressSpaceTag⟩ }
    (ptr + size - 4 * e.indicator.nrParams) e.params k
  rw [hwf.1] at hcache
  refine ⟨?_, ?_, ⟨?_, ?_⟩, ?_, fits_of_hasRoom hroom hcount, ?_⟩
  · rw [writeParams_frame]
    rfl
  · intro k hk
    rw [(hcache k).2 (by omega)]
    simp only [Hart.copyChunk]
    rw [if_neg (by omega)]
  · intro k hk
    rw [(hcache (ptr + k)).2 (by omega)]
    simp only [Hart.copyChunk]
    rw [if_pos (by omega), if_pos (by omega)]
    congr 1
    omega
  · intro k hlow hk
    exact (hcache (ptr + k)).1 (by omega)
  · intro item
    rw [writeParams_frame]
    exact mem_insertMappingItem
  · rw [writeParams_frame]
    rfl

/-! ## The invariant -/

/-- What stands behind the block of `item`: the jumper, or the next block and its item. -/
def Followed (hc : HostCode) (h : Hart) (item : MappingItem) (size unit : Nat) : Prop :=
  (JumperAt hc h (item.tcOffset + size) ∧
    item.tcOffset + size + hc.jumperSize ≤ h.translationCachePtr) ∨
  ∃ next ∈ h.pcMappings, ∃ indicator,
    next.guestPc = item.guestPc + 4 ∧ next.tcOffset = item.tcOffset + size ∧
    BlockAt hc h next.tcOffset next.guestPc indicator unit ∧
    next.tcOffset + hc.blockSize indicator ≤ h.translationCachePtr

/--
The block of `item` stands in the cache and is followed as it should be, or it
is the last one and still waits for the block of the pc behind it.
-/
def Placed (hc : HostCode) (h : Hart) (waits : Word → Nat → Prop) (item : MappingItem) : Prop :=
  ∃ indicator unit,
    BlockAt hc h item.tcOffset item.guestPc indicator unit ∧
    item.tcOffset + hc.blockSize indicator ≤ h.translationCachePtr ∧
    item.tcOffset + hc.blockSize indicator + hc.jumperSize ≤ TRANSLATION_CACHE_SIZE ∧
    (indicator.fallsThrough = true →
      Followed hc h item (hc.blockSize indicator) unit ∨
      item.tcOffset + hc.blockSize indicator = h.translationCachePtr ∧
        waits (item.guestPc + 4) unit)

def Laid (hc : HostCode) (h : Hart) (waits : Word → Nat → Prop) : Prop :=
  ∀ item ∈ h.pcMappings, Placed hc h waits item

/-- No block waits. -/
def Settled : Word → Nat → Prop := fun _ _ => False

/-- A block of prefetch `unit` waits for `pc`. -/
def WaitsFor (pc : Word) (unit : Nat) : Word → Nat → Prop := fun pc' unit' =>
  pc' = pc ∧ unit' = unit

section Laid

variable {hc : HostCode} {h h' : Hart} {waits waits' : Word → Nat → Prop}

theorem laid_mono (hl : Laid hc h waits) (hw : ∀ pc unit, waits pc unit → waits' pc unit) :
    Laid hc h waits' := by
  intro item hmem
  obtain ⟨indicator, unit, hblock, hptr, hfits, hfalls⟩ := hl item hmem
  refine ⟨indicator, unit, hblock, hptr, hfits, fun hf => ?_⟩
  rcases hfalls hf with hfollowed | ⟨hlast, hwaits⟩
  · exact .inl hfollowed
  · exact .inr ⟨hlast, hw _ _ hwaits⟩

theorem laid_of_settled (hl : Laid hc h Settled) : Laid hc h waits :=
  laid_mono hl fun _ _ hfalse => hfalse.elim

theorem laid_of_empty (hempty : h.pcMappings = []) : Laid hc h waits := by
  intro item hmem
  rw [hempty] at hmem
  exact absurd hmem List.not_mem_nil

/-- The parts of the hart the layout depends on. -/
structure SameCache (h h' : Hart) : Prop where
  pcMappings : h'.pcMappings = h.pcMappings
  translationCache : h'.translationCache = h.translationCache
  translationCachePtr : h'.translationCachePtr = h.translationCachePtr

theorem blockAt_congr (hsame : h'.translationCache = h.translationCache) (offset : Nat) (pc : Word)
    (indicator : Indicator) (unit : Nat) :
    BlockAt hc h offset pc indicator unit → BlockAt hc h' offset pc indicator unit :=
  fun hb => hb.congr fun k _ => congrFun hsame k

theorem Followed.mono {item : MappingItem} {size unit : Nat}
    (hf : Followed hc h item size unit)
    (hbelow : ∀ k, k < h.translationCachePtr → h'.translationCache k = h.translationCache k)
    (hptr : h.translationCachePtr ≤ h'.translationCachePtr)
    (hmappings : ∀ next ∈ h.pcMappings, next ∈ h'.pcMappings) :
    Followed hc h' item size unit := by
  rcases hf with ⟨hjumper, hend⟩ | ⟨next, hmem, indicator, hpc, hoffset, hblock, hend⟩
  · exact .inl ⟨hjumper.congr fun k hk => hbelow k (by omega), by omega⟩
  · refine .inr ⟨next, hmappings next hmem, indicator, hpc, hoffset, ?_, by omega⟩
    exact hblock.congr fun k hk => hbelow k (by omega)

theorem laid_congr (hsame : SameCache h h') (hl : Laid hc h waits) : Laid hc h' waits := by
  intro item hmem
  rw [hsame.pcMappings] at hmem
  obtain ⟨indicator, unit, hblock, hptr, hfits, hfalls⟩ := hl item hmem
  rw [Placed, hsame.translationCachePtr]
  refine ⟨indicator, unit, blockAt_congr hsame.translationCache _ _ _ _ hblock, hptr, hfits,
    fun hf => ?_⟩
  rcases hfalls hf with hfollowed | hlast
  · refine .inl (hfollowed.mono (fun k _ => congrFun hsame.translationCache k) ?_ ?_)
    · rw [hsame.translationCachePtr]
    · intro next hnext
      rw [hsame.pcMappings]
      exact hnext
  · exact .inr hlast

/-- Emitting the awaited block leaves that block as the only one that may wait. -/
theorem laid_appended {address : Word} {indicator : Indicator}
    (hl : Laid hc h (WaitsFor address h.ghostPrefetches))
    (ha : Appended hc address indicator h h') :
    Laid hc h' fun pc unit =>
      indicator.fallsThrough = true ∧ WaitsFor (address + 4) h.ghostPrefetches pc unit := by
  have hgrow : h.translationCachePtr ≤ h'.translationCachePtr := by
    rw [ha.ptr]
    omega
  intro item hmem
  rcases (ha.mappings item).mp hmem with rfl | hold
  · refine ⟨indicator, h.ghostPrefetches, ha.block, ha.ptr.ge, ha.fits, fun hf => .inr ?_⟩
    exact ⟨ha.ptr.symm, hf, rfl, rfl⟩
  · obtain ⟨indicator', unit, hblock, hptr, hfits, hfalls⟩ := hl item hold
    refine ⟨indicator', unit, hblock.congr fun k hk => ha.below k (by omega), by omega, hfits,
      fun hf => .inl ?_⟩
    rcases hfalls hf with hfollowed | ⟨hlast, hpc, rfl⟩
    · exact hfollowed.mono ha.below hgrow fun next hnext => (ha.mappings next).mpr (.inr hnext)
    · refine .inr ⟨⟨address, h.translationCachePtr, h.addressSpaceTag⟩,
        (ha.mappings _).mpr (.inl rfl), indicator, hpc.symm, hlast.symm, ha.block, ha.ptr.ge⟩

/-- The jumper closes the block that waits. -/
theorem laid_appendJumper (hl : Laid hc h waits) : Laid hc (h.appendJumper hc) Settled := by
  have hbelow : ∀ k, k < h.translationCachePtr →
      (h.appendJumper hc).translationCache k = h.translationCache k := by
    intro k hk
    simp only [Hart.appendJumper, Hart.copyChunk]
    rw [if_neg (by omega)]
  have hptr : (h.appendJumper hc).translationCachePtr = h.translationCachePtr + hc.jumperSize := rfl
  intro item hmem
  obtain ⟨indicator, unit, hblock, hend, hfits, hfalls⟩ := hl item hmem
  refine ⟨indicator, unit, hblock.congr fun k hk => hbelow k (by omega), by omega, hfits,
    fun hf => .inl ?_⟩
  rcases hfalls hf with hfollowed | ⟨hlast, -⟩
  · exact hfollowed.mono hbelow (by omega) fun _ hnext => hnext
  · refine .inl ⟨fun k hk => ?_, by omega⟩
    simp only [Hart.appendJumper, Hart.copyChunk]
    rw [hlast, if_pos (by omega), if_pos (by omega)]
    congr 1
    omega

end Laid

/-! ## Rounds -/

/-- What the loop of a prefetch keeps to after `n` rounds. -/
structure LoopLaid (hc : HostCode) (n : Nat) (blob : PrefetchBlob) (s : Vm) : Prop where
  laid : Laid hc s.hart (WaitsFor blob.nextInstructionToFetch s.hart.ghostPrefetches)
  settled : n = 0 ∨ blob.isToStop = true ∧
      (∃ item ∈ s.hart.pcMappings, item.guestPc = blob.nextInstructionToFetch) →
    Laid hc s.hart Settled

/-- A block that was emitted, and what is then awaited. -/
private theorem loopLaid_committed {hc : HostCode} {e : Emitted} {blob : PrefetchBlob} {s : Vm}
    {h h' : Hart} {n : Nat} (hwf : WellFormed e)
    (hl : Laid hc h (WaitsFor blob.nextInstructionToFetch h.ghostPrefetches))
    (hfresh : ∀ item ∈ h.pcMappings, item.guestPc ≠ blob.nextInstructionToFetch)
    (hgoes : blob.isToStop = false)
    (hcommit : Committed hc e blob.nextInstructionToFetch h h') :
    LoopLaid hc (n + 1) (advance e blob) { s with hart := h' } := by
  have happended := appended_of_committed hwf hcommit hfresh
  have hlaid := laid_appended hl happended
  have hstop := hwf.2
  unfold advance
  by_cases hfalls : e.indicator.fallsThrough = true
  · rw [hfalls] at hstop
    rw [hstop]
    refine ⟨laid_mono hlaid fun pc unit hw => ⟨hw.2.1, hw.2.2.trans happended.units.symm⟩, ?_⟩
    rintro (hzero | ⟨hstopped, -⟩)
    · cases hzero
    · simp only [Bool.not_true, Bool.false_eq_true, if_false, hgoes] at hstopped
  · have hsettled : Laid hc h' Settled := laid_mono hlaid fun _ _ hw => hfalls hw.1
    exact ⟨laid_of_settled hsettled, fun _ => hsettled⟩

/--
What a prefetch from `s` must not run into: a pc that is mapped but missed by
the search, a fetch fault behind the first instruction that is delivered
without a flush, and, after a flush, exactly the old end of the cache behind a
block that falls through.
-/
structure CleanPrefetch (hc : HostCode) (s : Vm) : Prop where
  fresh : ∀ n blob u, Rounds hc (initialBlob s.hart.pc) (started s) n blob u →
    Continues blob u → ∀ item ∈ u.hart.pcMappings, item.guestPc ≠ blob.nextInstructionToFetch
  fetch : ∀ n blob u, Rounds hc (initialBlob s.hart.pc) (started s) n blob u → 0 < n →
    Continues blob u → FetchFault u blob.nextInstructionToFetch →
    u.hart.exceptionTargetPrivilegeLevel EXCEPTION_INSTRUCTION_PAGE_FAULT =
      PRIVILEGE_LEVEL_MACHINE
  pointer : ∀ n blob u, Rounds hc (initialBlob s.hart.pc) (started s) n blob u → 0 < n →
    ¬Continues blob u → u.hart.translationCachePtr = s.hart.translationCachePtr →
    blob.isToStop = true ∧
      ∃ item ∈ u.hart.pcMappings, item.guestPc = blob.nextInstructionToFetch

theorem loopLaid_of_rounds {hc : HostCode} {s u : Vm} {n : Nat} {blob : PrefetchBlob}
    (hl : Laid hc s.hart Settled) (hclean : CleanPrefetch hc s)
    (hrounds : Rounds hc (initialBlob s.hart.pc) (started s) n blob u) :
    LoopLaid hc n blob u := by
  induction hrounds with
  | zero =>
      have hstarted : Laid hc (started s).hart Settled := laid_congr (h := s.hart) ⟨rfl, rfl, rfl⟩ hl
      exact ⟨laid_of_settled hstarted, fun _ => hstarted⟩
  | @succ n blob blob' u t rounds continues round ih =>
      obtain ⟨v, e, hfetch, hwf, heffect⟩ := round_effect round
      have hfresh := hclean.fresh n blob u rounds continues
      have hsame : SameCache u.hart v.hart := by
        rw [hfetch]
        exact ⟨rfl, rfl, rfl⟩
      have hunits : v.hart.ghostPrefetches = u.hart.ghostPrefetches := by rw [hfetch]
      have hlaid : Laid hc v.hart
          (WaitsFor blob.nextInstructionToFetch v.hart.ghostPrefetches) := by
        rw [hunits]
        exact laid_congr hsame ih.laid
      rw [← hsame.pcMappings] at hfresh
      cases heffect with
      | full room kept =>
          refine ⟨hlaid, ?_⟩
          rintro (hzero | ⟨-, item, hmem, hpc⟩)
          · cases hzero
          · exact absurd hpc (hfresh item hmem)
      | added room commit => exact loopLaid_committed hwf hlaid hfresh continues.goesOn commit
      | flushed room first commit =>
          refine loopLaid_committed hwf (laid_of_empty rfl) ?_ continues.goesOn commit
          exact fun item hmem => absurd hmem List.not_mem_nil

/-! ## Prefetches, traps and execution -/

theorem laid_prefetch_ok {hc : HostCode} {s t : Vm} (hl : Laid hc s.hart Settled)
    (hclean : CleanPrefetch hc s) (h : prefetchInstructions hc s = .ok () t) :
    Laid hc t.hart Settled := by
  obtain ⟨n, blob, u, hrounds, hended, rfl⟩ := rounds_of_prefetchInstructions_ok h
  have hloop := loopLaid_of_rounds hl hclean hrounds
  unfold closed
  split
  · exact laid_appendJumper hloop.laid
  · rename_i hptr
    refine hloop.settled ?_
    rcases Nat.eq_zero_or_pos n with hzero | hpos
    · exact .inl hzero
    · exact .inr (hclean.pointer n blob u hrounds hpos hended (not_not.mp hptr).symm)

/-- With paging on, a trap to machine level leaves the address space. -/
theorem pcMappings_takeTrap_machine {h : Hart} (hpaging : h.pagingOn = true) (cause tval : Word) :
    (h.takeTrap PRIVILEGE_LEVEL_MACHINE cause tval).pcMappings = [] := by
  simp only [Hart.pagingOn, Bool.and_eq_true, decide_eq_true_eq, bne_iff_ne] at hpaging
  obtain ⟨hlevel, hsatp⟩ := hpaging
  have hbefore : h.addressSpaceTag = h.csrBlob CSR_ADDRESS_SATP := by
    unfold Hart.addressSpaceTag
    rw [if_neg]
    rintro (hmachine | hoff)
    · rw [hmachine] at hlevel
      exact absurd hlevel (by decide)
    · exact hsatp hoff
  have hafter : (h.setupMmodeTrap cause tval).addressSpaceTag = 0 := by
    unfold Hart.addressSpaceTag
    exact if_pos (.inl rfl)
  unfold Hart.takeTrap
  rw [if_pos rfl]
  unfold Hart.flushTranslationCacheOnAddressSpaceChange
  rw [if_pos]
  · rfl
  · rw [hbefore, hafter]
    intro hzero
    rw [← hzero] at hsatp
    exact hsatp (by decide)

/-- The cache is as it was, or flushed. -/
structure Kept (h h' : Hart) : Prop where
  translationCache : h'.translationCache = h.translationCache
  mappings : h'.pcMappings = [] ∨
    h'.pcMappings = h.pcMappings ∧ h'.translationCachePtr = h.translationCachePtr

theorem Kept.refl (h : Hart) : Kept h h :=
  ⟨rfl, .inr ⟨rfl, rfl⟩⟩

theorem laid_of_kept {hc : HostCode} {h h' : Hart} (hkept : Kept h h') (hl : Laid hc h Settled) :
    Laid hc h' Settled := by
  rcases hkept.mappings with hempty | ⟨hmappings, hptr⟩
  · exact laid_of_empty hempty
  · exact laid_congr ⟨hmappings, hkept.translationCache, hptr⟩ hl

theorem kept_flush {h h' : Hart} (hkept : Kept h h') : Kept h h'.flushTranslationCache :=
  ⟨hkept.translationCache, .inl rfl⟩

theorem kept_flushOnChange {h h' h'' : Hart} (hkept : Kept h h')
    (hsame : SameCache h' h'') (tag : Word) :
    Kept h (h''.flushTranslationCacheOnAddressSpaceChange tag) := by
  have hkept' : Kept h h'' := by
    refine ⟨hsame.translationCache.trans hkept.translationCache, ?_⟩
    rw [hsame.pcMappings, hsame.translationCachePtr]
    exact hkept.mappings
  unfold Hart.flushTranslationCacheOnAddressSpaceChange
  split
  · exact kept_flush hkept'
  · exact hkept'

theorem kept_takeTrap {h h' : Hart} (hkept : Kept h h') (level : BitVec 2) (cause tval : Word) :
    Kept h (h'.takeTrap level cause tval) := by
  unfold Hart.takeTrap
  refine kept_flushOnChange hkept ?_ _
  split
  · exact ⟨rfl, rfl, rfl⟩
  · exact ⟨rfl, rfl, rfl⟩

theorem closed_kept (h : Hart) : Closed (Kept h) where
  setReg _ _ _ hk := ⟨hk.translationCache, hk.mappings⟩
  setPc _ _ hk := ⟨hk.translationCache, hk.mappings⟩
  install _ side _ _ _ hk := by
    cases side with
    | itlb => exact ⟨hk.translationCache, hk.mappings⟩
    | dtlb => exact ⟨hk.translationCache, hk.mappings⟩

theorem csrClosed_kept (h : Hart) : CsrClosed (Kept h) where
  interrupts _ _ _ _ hk := ⟨hk.translationCache, hk.mappings⟩
  setStatus _ _ hk := ⟨hk.translationCache, hk.mappings⟩
  setCsrBlob _ _ _ _ hk := ⟨hk.translationCache, hk.mappings⟩
  writeSatp _ _ hk := ⟨hk.translationCache, .inl rfl⟩

theorem privilegedClosed_kept (h : Hart) : PrivilegedClosed (Kept h) where
  refresh _ _ _ hk := ⟨hk.translationCache, hk.mappings⟩
  setTsc _ _ hk := ⟨hk.translationCache, hk.mappings⟩
  csrWrite vm value hcsr hf _ hk := (csrClosed_kept h).csrWrite vm value hcsr hf hk
  returnFromMmode _ _ _ hk := by
    refine kept_flushOnChange hk ?_ _
    exact ⟨rfl, rfl, rfl⟩
  returnFromSmode _ _ hk := by
    refine kept_flushOnChange hk ?_ _
    exact ⟨rfl, rfl, rfl⟩
  flush _ hk := kept_flush hk
  sfenceVma _ hk := ⟨hk.translationCache, .inl rfl⟩

/-- On every outcome the cache is as it was, or flushed. -/
abbrev KeptOutcome (h : Hart) (_ : Abort) (t : Vm) : Prop :=
  Kept h t.hart

theorem leaves_kept (h : Hart) : Leaves (Kept h) (fun _ _ _ => True) (KeptOutcome h) where
  stop _ _ _ hs := hs
  trap _ level cause tval _ hs := kept_takeTrap hs level cause tval

theorem runBlock_kept (hc : HostCode) (indicator : Indicator) (param : Nat → Word) (c : Cpu)
    (s : Vm) :
    Wp (runBlock hc indicator param c) (fun _ t => Kept s.hart t.hart) (KeptOutcome s.hart) s :=
  ends_runBlock (closed_kept s.hart) (privilegedClosed_kept s.hart) (leaves_kept s.hart)
    (fun _ _ _ _ _ => trivial) hc indicator param c s (.refl s.hart)

theorem runCache_kept (hc : HostCode) (steps offset : Nat) (c : Cpu) (s : Vm) :
    Wp (runCache hc steps offset c) (fun _ t => Kept s.hart t.hart) (KeptOutcome s.hart) s :=
  ends_runCache (closed_kept s.hart) (privilegedClosed_kept s.hart) (leaves_kept s.hart)
    (fun _ _ _ _ _ => trivial) hc steps offset c s (.refl s.hart)

theorem laid_prefetch_trap {hc : HostCode} {s t : Vm} (hl : Laid hc s.hart Settled)
    (hclean : CleanPrefetch hc s) (h : prefetchInstructions hc s = .error .trap t) :
    Laid hc t.hart Settled := by
  obtain ⟨n, blob, u, hrounds, hcontinues, hfault, rfl⟩ := rounds_of_prefetchInstructions_trap h
  have hloop := loopLaid_of_rounds hl hclean hrounds
  rcases Nat.eq_zero_or_pos n with hzero | hpos
  · exact laid_of_kept (kept_takeTrap (.refl u.hart) _ _ _) (hloop.settled (.inl hzero))
  · apply laid_of_empty
    unfold fetchFaulted excepted
    rw [hclean.fetch n blob u hrounds hpos hcontinues hfault]
    exact pcMappings_takeTrap_machine hfault.pagingOn _ _

/-- A resume is a prefetch and then running code, both of which keep the layout. -/
theorem laid_vmresume {hc : HostCode} {s : Vm} (hl : Laid hc s.hart Settled)
    (hclean : CleanPrefetch hc s) :
    Wp (vmresume hc) (fun _ t => Laid hc t.hart Settled)
      (fun e t => e = .trap → Laid hc t.hart Settled) s := by
  unfold vmresume
  rw [wp_bind]
  cases hprefetch : prefetchInstructions hc s with
  | error e t =>
      rw [wp_of_error hprefetch]
      rintro rfl
      exact laid_prefetch_trap hl hclean hprefetch
  | ok _ t =>
      have hlaid := laid_prefetch_ok hl hclean hprefetch
      rw [wp_of_ok hprefetch, wp_bind, wp_get]
      cases searchTranslationItem t.hart.pcMappings t.hart.pc with
      | none => exact fun he => nomatch he
      | some item =>
          refine wp_mono (runCache_kept hc TRANSLATION_CACHE_SIZE item.tcOffset (entryCpu hc) t)
            ?_ ?_
          · intro _ u hkept
            exact laid_of_kept hkept hlaid
          · intro _ u hkept _
            exact laid_of_kept hkept hlaid

/-! ## Chains -/

theorem fallsThroughRight_of_laid {hc : HostCode} {h : Hart} (hl : Laid hc h Settled) :
    FallsThroughRight hc h := by
  intro item hmem
  obtain ⟨indicator, unit, hblock, -, -, hfalls⟩ := hl item hmem
  refine ⟨indicator, unit, hblock, fun hf => ?_⟩
  rcases hfalls hf with (⟨hjumper, -⟩ | ⟨next, -, indicator', hpc, hoffset, hnext, -⟩) | ⟨-, hfalse⟩
  · exact .inl hjumper
  · rw [hpc, hoffset] at hnext
    exact .inr ⟨indicator', hnext⟩
  · exact hfalse.elim

/-- From every mapped pc a chain of blocks leads to a vmm exit or a jumper within the cache. -/
theorem chain_of_laid {hc : HostCode} {h : Hart} (hl : Laid hc h Settled) {item : MappingItem}
    (hmem : item ∈ h.pcMappings) :
    ∃ indicators, Chain hc h item.guestPc item.tcOffset indicators ∧
      item.tcOffset + indicators.length + hc.jumperSize ≤ TRANSLATION_CACHE_SIZE := by
  -- The distance to the end of the cache decreases from block to block.
  induction hdist : h.translationCachePtr - item.tcOffset using Nat.strong_induction_on
    generalizing item with
  | _ distance ih =>
      obtain ⟨indicator, unit, hblock, hptr, hfits, hfalls⟩ := hl item hmem
      have hsize := hc.params_lt indicator
      cases hf : indicator.fallsThrough with
      | false =>
          refine ⟨[indicator], .leaves hblock hf, ?_⟩
          simp only [List.length_singleton]
          omega
      | true =>
          rcases hfalls hf with (⟨hjumper, hend⟩ | ⟨next, hnext, indicator', hpc, hoffset, -, -⟩) |
            ⟨-, hfalse⟩
          · refine ⟨[indicator], .jumper hblock hf hjumper, ?_⟩
            simp only [List.length_singleton]
            omega
          · obtain ⟨rest, hchain, hlength⟩ :=
              ih (h.translationCachePtr - next.tcOffset) (by omega) hnext rfl
            rw [hpc, hoffset] at hchain
            refine ⟨indicator :: rest, .next hblock hf hchain, ?_⟩
            simp only [List.length_cons]
            omega
          · exact hfalse.elim

theorem endsInMonitor_template {indicator : Indicator} (h : indicator.fallsThrough = false) :
    endsInMonitor (template indicator) = true := by
  cases indicator <;> first | decide | cases h

theorem runBlock_toMonitor (hc : HostCode) {indicator : Indicator}
    (h : indicator.fallsThrough = false) (param : Nat → Word) (c : Cpu) (s : Vm) :
    Wp (runBlock hc indicator param c) (fun r _ => r.1 = .toMonitor) (fun _ _ => True) s :=
  exec_toMonitor (endsInMonitor_template h) (by simp [template, beginTranslation]) c s

/-- Entering the cache at the head of a chain executes exactly its blocks. -/
theorem runCache_eq_runChain {hc : HostCode} {h : Hart} {pc : Word} {offset : Nat}
    {indicators : List Indicator} (hchain : Chain hc h pc offset indicators) {steps : Nat}
    (hsteps : indicators.length < steps) (c : Cpu) {s : Vm}
    (hsame : s.hart.translationCache = h.translationCache) :
    runCache hc steps offset c s = runChain hc offset indicators c s := by
  have hfirst : ∀ {offset pc indicator unit} {s : Vm},
      BlockAt hc h offset pc indicator unit → s.hart.translationCache = h.translationCache →
      s.hart.translationCache offset = .code (.block pc indicator unit) 0 := by
    intro offset pc indicator unit s hblock hs
    rw [hs]
    exact hblock.code 0 (blockSize_pos hc indicator)
  induction hchain generalizing steps c s with
  | @leaves pc offset unit indicator block falls =>
      obtain ⟨steps, rfl⟩ : ∃ k, steps = k + 1 := ⟨steps - 1, by omega⟩
      simp only [runCache, runChain, bind_apply, get_apply, hfirst block hsame]
      set param := fun i => (s.hart.tcParam hc offset indicator i).getD 0
      have hexit := runBlock_toMonitor hc falls param c s
      cases hrun : runBlock hc indicator param c s with
      | error e t => rfl
      | ok r t =>
          obtain ⟨e, c'⟩ := r
          obtain rfl : e = .toMonitor := (wp_of_ok hrun).mp hexit
          rfl
  | @jumper pc offset unit indicator block falls jumper =>
      obtain ⟨steps, rfl⟩ : ∃ k, steps = k + 2 := ⟨steps - 2, by simp at hsteps; omega⟩
      rw [runCache, runChain]
      simp only [bind_apply, get_apply, hfirst block hsame]
      set param := fun i => (s.hart.tcParam hc offset indicator i).getD 0
      have hkept := runBlock_kept hc indicator param c s
      cases hrun : runBlock hc indicator param c s with
      | error e t => rfl
      | ok r t =>
          obtain ⟨e, c'⟩ := r
          have hcache := ((wp_of_ok hrun).mp hkept).translationCache.trans hsame
          have hj := jumper 0 hc.jumperSize_pos
          rw [Nat.add_zero, ← hcache] at hj
          cases e with
          | toMonitor => rfl
          | fallThrough =>
              simp only [runCache, runChain, bind_apply, get_apply, hj]
  | @next pc offset unit indicator rest block falls chain ih =>
      obtain ⟨steps, rfl⟩ : ∃ k, steps = k + 1 := ⟨steps - 1, by omega⟩
      rw [runCache, runChain]
      simp only [bind_apply, get_apply, hfirst block hsame]
      set param := fun i => (s.hart.tcParam hc offset indicator i).getD 0
      have hkept := runBlock_kept hc indicator param c s
      cases hrun : runBlock hc indicator param c s with
      | error e t => rfl
      | ok r t =>
          obtain ⟨e, c'⟩ := r
          have hcache := ((wp_of_ok hrun).mp hkept).translationCache.trans hsame
          cases e with
          | toMonitor => rfl
          | fallThrough => exact ih (by simpa using hsteps) c' hcache

/-! ## Runs -/

/--
Prefetches, resumes, flushes and traps in any order, with anything else about
the machine (its pc, its memory, its registers) changed freely in between.
`Clean` is asked of the state before each prefetch.
-/
inductive Run (hc : HostCode) (Clean : Vm → Prop) : Vm → Prop
  | start {vm : Vm} (empty : vm.hart.pcMappings = []) : Run hc Clean vm
  | prefetch {vm vm' : Vm} (run : Run hc Clean vm) (clean : Clean vm)
      (ran : prefetchInstructions hc vm = .ok () vm' ∨
        prefetchInstructions hc vm = .error .trap vm') : Run hc Clean vm'
  | resume {vm vm' : Vm} (run : Run hc Clean vm) (clean : Clean vm)
      (ran : vmresume hc vm = .ok () vm' ∨ vmresume hc vm = .error .trap vm') : Run hc Clean vm'
  | flush {vm : Vm} (run : Run hc Clean vm) :
      Run hc Clean { vm with hart := vm.hart.flushTranslationCache }
  | trap {vm : Vm} (run : Run hc Clean vm) (level : BitVec 2) (cause tval : Word) :
      Run hc Clean { vm with hart := vm.hart.takeTrap level cause tval }
  | other {vm vm' : Vm} (run : Run hc Clean vm) (same : SameCache vm.hart vm'.hart) :
      Run hc Clean vm'

theorem laid_of_run {hc : HostCode} {vm : Vm} (hrun : Run hc (CleanPrefetch hc) vm) :
    Laid hc vm.hart Settled := by
  induction hrun with
  | start empty => exact laid_of_empty empty
  | prefetch _ clean ran ih =>
      rcases ran with ran | ran
      · exact laid_prefetch_ok ih clean ran
      · exact laid_prefetch_trap ih clean ran
  | resume _ clean ran ih =>
      have hwp := laid_vmresume ih clean
      rcases ran with ran | ran
      · exact (wp_of_ok ran).mp hwp
      · exact (wp_of_error ran).mp hwp rfl
  | flush _ ih => exact laid_of_empty rfl
  | trap _ level cause tval ih => exact laid_of_kept (kept_takeTrap (.refl _) level cause tval) ih
  | other _ same ih => exact laid_congr same ih

/--
In every state of a run of clean prefetches, fall-through is to the right
instruction, and entering the cache at a mapped pc executes exactly a chain of
consecutive blocks.
-/
theorem fallThrough_of_run {hc : HostCode} {vm : Vm} (hrun : Run hc (CleanPrefetch hc) vm) :
    FallsThroughRight hc vm.hart ∧
      ∀ item ∈ vm.hart.pcMappings, ∃ indicators,
        Chain hc vm.hart item.guestPc item.tcOffset indicators ∧
        ∀ c, runCache hc TRANSLATION_CACHE_SIZE item.tcOffset c vm =
          runChain hc item.tcOffset indicators c vm := by
  have hl := laid_of_run hrun
  refine ⟨fallsThroughRight_of_laid hl, fun item hmem => ?_⟩
  obtain ⟨indicators, hchain, hlength⟩ := chain_of_laid hl hmem
  have hjumper := hc.jumperSize_pos
  exact ⟨indicators, hchain, fun c => runCache_eq_runChain hchain (by omega) c rfl⟩

/-! ### The boot ROM's first unit -/

/-- What `CleanPrefetch` asks of the state before a round, and of the last one. -/
def cleanAt (s : Vm) (n : Nat) (blob : PrefetchBlob) (u : Vm) : Bool :=
  if goesOnAt blob u then
    u.hart.pcMappings.all fun item => item.guestPc != blob.nextInstructionToFetch
  else
    n == 0 || u.hart.translationCachePtr != s.hart.translationCachePtr

theorem cleanPrefetch_of_roundsPass {hc : HostCode} {s : Vm} {rounds : Nat}
    (hpass : roundsPass hc (cleanAt s) rounds 0 (initialBlob s.hart.pc) (started s) = true) :
    CleanPrefetch hc s := by
  refine ⟨?_, ?_, ?_⟩
  · intro n blob u hrounds hcontinues item hmem
    have hclean := (check_of_roundsPass hpass hrounds).1
    rw [cleanAt, if_pos (goesOnAt_iff.mpr hcontinues), List.all_eq_true] at hclean
    exact bne_iff_ne.mp (hclean item hmem)
  · intro n blob u hrounds _ hcontinues hfault
    exact absurd hfault
      (not_fetchFault_of_nextRound (check_of_roundsPass hpass hrounds).2 hcontinues)
  · intro n blob u hrounds hpos hended hsame
    have hclean := (check_of_roundsPass hpass hrounds).1
    rw [cleanAt, if_neg fun h => hended (goesOnAt_iff.mp h), Bool.or_eq_true, beq_iff_eq,
      bne_iff_ne] at hclean
    rcases hclean with hzero | hmoved
    · exact absurd hzero hpos.ne'
    · exact absurd hsame hmoved

open AddressSpace (bootVm) in
/-- Six of the seven blocks fall through, each into the next one. -/
theorem fallThrough_of_run_loop :
    ∃ vm, prefetchInstructions evenHostCode bootVm = .ok () vm ∧
      vm.hart.pcMappings.map (fun item => (item.guestPc, item.tcOffset)) =
        [(0x4000, 0), (0x4004, 256), (0x4008, 512), (0x400c, 768), (0x4010, 1024), (0x4014, 1280),
          (0x4018, 1536)] ∧
      FallsThroughRight evenHostCode vm.hart := by
  have hok : isOk (prefetchInstructions evenHostCode bootVm) = true := by decide +kernel
  have hmappings : (finalState (prefetchInstructions evenHostCode bootVm)).hart.pcMappings.map
      (fun item => (item.guestPc, item.tcOffset)) =
        [(0x4000, 0), (0x4004, 256), (0x4008, 512), (0x400c, 768), (0x4010, 1024), (0x4014, 1280),
          (0x4018, 1536)] := by
    decide +kernel
  obtain ⟨_, hran⟩ := eq_ok_of_isOk hok
  have hpass : roundsPass evenHostCode (cleanAt bootVm) 8 0 (initialBlob bootVm.hart.pc)
      (started bootVm) = true := by
    decide +kernel
  have hclean : CleanPrefetch evenHostCode bootVm := cleanPrefetch_of_roundsPass hpass
  exact ⟨_, hran, hmappings, (fallThrough_of_run (.prefetch (.start rfl) hclean (.inl hran))).1⟩

/-! ## An abandoned prefetch -/

/-- The machine after the trap that cut a prefetch short. -/
def abandonedVm : Vm :=
  finalState (prefetchInstructions evenHostCode FetchFaults.crossingVm)

/-- The block of the `nop` stays mapped and runs on into bytes that were never written. -/
theorem orphan_block_falls_off :
    ¬∀ (hc : HostCode) (vm : Vm), Run hc (fun _ => True) vm → FallsThroughRight hc vm.hart := by
  intro hclaim
  have htrap : ∃ t, prefetchInstructions evenHostCode FetchFaults.crossingVm = .error .trap t ∧
      t = abandonedVm := by
    have hview : (FetchFaults.handlerView
        (prefetchInstructions evenHostCode FetchFaults.crossingVm)).isSome = true := by
      decide +kernel
    unfold abandonedVm
    cases hrun : prefetchInstructions evenHostCode FetchFaults.crossingVm with
    | ok a t =>
        rw [hrun] at hview
        cases hview
    | error e t =>
        rw [hrun] at hview
        cases e with
        | exit | hostFault => cases hview
        | trap => exact ⟨t, rfl, rfl⟩
  obtain ⟨t, hran, rfl⟩ := htrap
  have hmappings : abandonedVm.hart.pcMappings = [⟨0x1ffc, 0, 0x80080000⟩] := by decide +kernel
  have hfirst : abandonedVm.hart.translationCache 0 = .code (.block 0x1ffc .addi 1) 0 := by
    decide +kernel
  have hbehind : abandonedVm.hart.translationCache 256 = .empty := by decide +kernel
  obtain ⟨indicator, unit, hblock, hfalls⟩ :=
    hclaim evenHostCode abandonedVm (.prefetch (.start rfl) trivial (.inr hran))
      ⟨0x1ffc, 0, 0x80080000⟩ (by rw [hmappings]; exact List.mem_singleton_self _)
  have hcode := hblock.code 0 (blockSize_pos evenHostCode indicator)
  rw [hfirst] at hcode
  obtain rfl : Indicator.addi = indicator := (TcChunk.block.inj (TcByte.code.inj hcode).1).2.1
  rcases hfalls rfl with hjumper | ⟨next, hnext⟩
  · exact absurd ((hjumper 0 (by decide)).symm.trans hbehind) (by decide)
  · exact absurd ((hnext.code 0 (blockSize_pos evenHostCode next)).symm.trans hbehind)
      (fun h => nomatch h)

end Zelda.Proofs.FallThrough
