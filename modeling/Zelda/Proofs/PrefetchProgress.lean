import Zelda.Proofs.FallThrough
/-!
# Progress of a prefetch

The cache is bounded twice, in bytes and in mapping items, and a prefetch may
flush it once.  A round either finds room, makes room by that flush, or ends
the unit, so a prefetch ends, commits everything it emits, and leaves the pc
it started from in the mapping array.
-/

namespace Zelda.Proofs.PrefetchProgress

open Zelda.Vmm
open Zelda.Lib.Effect
open Zelda.Proofs.Frames
open Zelda.Proofs.MappingArray
open Zelda.Proofs.Prefetch
open Zelda.Proofs.FallThrough

/-! ## The state of a cache -/

/-- Both capacity bounds, and a mapping array whose lookups are exact inside the window. -/
structure CacheState (base : Word) (h : Hart) : Prop where
  items : h.nrTranslatedInstructions ≤ MAX_INSTRUCTIONS_TOTRANSLATE
  bytes : h.translationCachePtr ≤ TRANSLATION_CACHE_SIZE
  sorted : Sorted h.pcMappings
  window : ∀ item ∈ h.pcMappings, InWindow base item.guestPc

/-- The mapped blocks lie below the end of the cache and do not overlap. -/
structure Tiled (hc : HostCode) (h : Hart) : Prop where
  inside : ∀ item ∈ h.pcMappings, ∃ indicator unit,
    BlockAt hc h item.tcOffset item.guestPc indicator unit ∧
      item.tcOffset + hc.blockSize indicator ≤ h.translationCachePtr
  disjoint : ∀ x ∈ h.pcMappings, ∀ y ∈ h.pcMappings, x ≠ y → ∀ ix ux iy uy,
    BlockAt hc h x.tcOffset x.guestPc ix ux → BlockAt hc h y.tcOffset y.guestPc iy uy →
      x.tcOffset + hc.blockSize ix ≤ y.tcOffset ∨ y.tcOffset + hc.blockSize iy ≤ x.tcOffset

section Cache

variable {hc : HostCode} {base : Word} {h h' : Hart}

theorem CacheState.congr (hs : CacheState base h) (hsame : SameCache h h') :
    CacheState base h' := by
  have hitems : h'.nrTranslatedInstructions = h.nrTranslatedInstructions :=
    congrArg List.length hsame.pcMappings
  constructor
  · rw [hitems]
    exact hs.items
  · rw [hsame.translationCachePtr]
    exact hs.bytes
  · rw [hsame.pcMappings]
    exact hs.sorted
  · rw [hsame.pcMappings]
    exact hs.window

theorem cacheState_of_empty (base : Word) (hempty : h.pcMappings = [])
    (hbytes : h.translationCachePtr ≤ TRANSLATION_CACHE_SIZE) : CacheState base h := by
  have hitems : h.nrTranslatedInstructions = 0 := congrArg List.length hempty
  constructor
  · rw [hitems]
    exact Nat.zero_le _
  · exact hbytes
  · rw [hempty]
    exact List.Pairwise.nil
  · rw [hempty]
    exact fun _ hmem => absurd hmem List.not_mem_nil

theorem cacheState_flush (base : Word) (h : Hart) : CacheState base h.flushTranslationCache :=
  cacheState_of_empty base rfl (Nat.zero_le _)

theorem tiled_of_empty (hempty : h.pcMappings = []) : Tiled hc h where
  inside item hmem := by
    rw [hempty] at hmem
    exact absurd hmem List.not_mem_nil
  disjoint x hx := by
    rw [hempty] at hx
    exact absurd hx List.not_mem_nil

theorem tiled_flush (hc : HostCode) (h : Hart) : Tiled hc h.flushTranslationCache :=
  tiled_of_empty rfl

/-- A missed address of the window is not in the array at all. -/
theorem fresh_of_missed (hs : CacheState base h) {address : Word}
    (hmissed : searchTranslationItem h.pcMappings address = none) :
    ∀ item ∈ h.pcMappings, item.guestPc ≠ address := by
  rintro item hmem rfl
  rw [searchTranslationItem_of_mem hs.sorted hmem] at hmissed
  cases hmissed

/-- A full mapping array has no room, whatever the block. -/
theorem items_lt_of_hasRoom (hs : CacheState base h) {indicator : Indicator}
    (hroom : HasRoom hc h indicator) :
    h.nrTranslatedInstructions < MAX_INSTRUCTIONS_TOTRANSLATE := by
  apply lt_of_le_of_ne hs.items
  intro hfull
  have hsize := hc.params_lt indicator
  unfold HasRoom Hart.unoccupiedCacheSize at hroom
  rw [if_neg hfull.not_lt] at hroom
  omega

/-- An empty cache has room for every block. -/
theorem hasRoom_flush (hc : HostCode) (h : Hart) (indicator : Indicator) :
    HasRoom hc h.flushTranslationCache indicator := by
  have hfits := hc.block_fits indicator
  have hempty : h.flushTranslationCache.nrTranslatedInstructions < MAX_INSTRUCTIONS_TOTRANSLATE :=
    Nat.zero_lt_succ _
  unfold HasRoom Hart.unoccupiedCacheSize
  rw [if_pos hempty]
  simp only [Hart.flushTranslationCache]
  omega

/-- `add_translation_item` succeeds behind the precheck. -/
theorem addTranslationItem_isSome (hs : CacheState base h) {indicator : Indicator}
    (hroom : HasRoom hc h indicator) (address : Word) :
    (h.addTranslationItem hc address indicator).isSome = true := by
  have hitems := items_lt_of_hasRoom hs hroom
  unfold Hart.addTranslationItem
  rw [if_neg hroom, if_neg (Nat.not_le.mpr hitems)]
  rfl

/-! ## One commit -/

/-- What was added is found. -/
theorem search_added {added : Hart} {indicator : Indicator} {address : Word}
    (hs : CacheState base h) (hwindow : InWindow base address)
    (hfresh : ∀ item ∈ h.pcMappings, item.guestPc ≠ address)
    (hadd : h.addTranslationItem hc address indicator = some added) :
    ∃ item, searchTranslationItem added.pcMappings address = some item := by
  have hmappings := pcMappings_addTranslationItem hadd
  have hsorted : Sorted added.pcMappings := by
    rw [hmappings]
    exact sorted_insertMappingItem hs.sorted hs.window hwindow hfresh
  obtain ⟨item, hmem, rfl⟩ : ∃ item ∈ added.pcMappings, item.guestPc = address := by
    rw [hmappings]
    exact ⟨_, mem_insertMappingItem.mpr (.inl rfl), rfl⟩
  exact ⟨item, searchTranslationItem_of_mem hsorted hmem⟩

/-- `COMMIT_TRANSLATION` succeeds behind the precheck. -/
theorem commitTranslation_succeeds {s : Vm} {e : Emitted} {address : Word}
    (hs : CacheState base s.hart) (hroom : HasRoom hc s.hart e.indicator)
    (hwindow : InWindow base address)
    (hfresh : ∀ item ∈ s.hart.pcMappings, item.guestPc ≠ address) :
    Wp (commitTranslation hc address e.indicator e.params) (fun _ _ => True)
      (fun _ _ => False) s := by
  obtain ⟨added, hadd⟩ := Option.isSome_iff_exists.mp (addTranslationItem_isSome hs hroom address)
  obtain ⟨item, hfound⟩ := search_added hs hwindow hfresh hadd
  have hpc : (item.guestPc == address) = true :=
    beq_iff_eq.mpr (searchTranslationItem_sound hfound).2
  unfold commitTranslation
  simp only [wp_bind, wp_get]
  rw [hadd]
  simp only
  rw [hfound]
  simp only [wp_bind, assert]
  rw [if_pos hpc]
  exact True.intro

theorem Committed.cacheState {e : Emitted} {address : Word} (hs : CacheState base h)
    (hwf : WellFormed e) (hcommit : Committed hc e address h h') (hwindow : InWindow base address)
    (hfresh : ∀ item ∈ h.pcMappings, item.guestPc ≠ address) :
    CacheState base h' ∧ h'.translationCachePtr + hc.jumperSize ≤ TRANSLATION_CACHE_SIZE := by
  have happended := appended_of_committed hwf hcommit hfresh
  have hptr := happended.ptr
  have hfits := happended.fits
  obtain ⟨-, hitems⟩ := hcommit.length
  refine ⟨⟨hitems, by omega, ?_, ?_⟩, by omega⟩
  · obtain ⟨added, item, hadd, -, rfl⟩ := hcommit
    rw [writeParams_frame]
    simp only [pcMappings_addTranslationItem hadd]
    exact sorted_insertMappingItem hs.sorted hs.window hwindow hfresh
  · intro item hmem
    rcases (happended.mappings item).mp hmem with rfl | hold
    · exact hwindow
    · exact hs.window item hold

/-- A block of the old cache is read back from the new one as it was. -/
theorem Tiled.blockAt_old (ht : Tiled hc h)
    (hbelow : ∀ k, k < h.translationCachePtr → h'.translationCache k = h.translationCache k)
    {item : MappingItem} (hmem : item ∈ h.pcMappings) {indicator : Indicator} {unit : Nat}
    (hblock : BlockAt hc h' item.tcOffset item.guestPc indicator unit) :
    BlockAt hc h item.tcOffset item.guestPc indicator unit ∧
      item.tcOffset + hc.blockSize indicator ≤ h.translationCachePtr := by
  obtain ⟨indicator', unit', hold, hend⟩ := ht.inside item hmem
  have hkept : BlockAt hc h' item.tcOffset item.guestPc indicator' unit' :=
    hold.congr fun k hk => hbelow k (by omega)
  obtain ⟨rfl, rfl⟩ := hkept.unique hblock
  exact ⟨hold, hend⟩

theorem Tiled.grow (ht : Tiled hc h) (hmappings : h'.pcMappings = h.pcMappings)
    (hbelow : ∀ k, k < h.translationCachePtr → h'.translationCache k = h.translationCache k)
    (hptr : h.translationCachePtr ≤ h'.translationCachePtr) : Tiled hc h' := by
  constructor
  · intro item hmem
    rw [hmappings] at hmem
    obtain ⟨indicator, unit, hblock, hend⟩ := ht.inside item hmem
    exact ⟨indicator, unit, hblock.congr fun k hk => hbelow k (by omega), by omega⟩
  · intro x hx y hy hne ix ux iy uy hbx hby
    rw [hmappings] at hx hy
    exact ht.disjoint x hx y hy hne ix ux iy uy (ht.blockAt_old hbelow hx hbx).1
      (ht.blockAt_old hbelow hy hby).1

theorem Tiled.congr (ht : Tiled hc h) (hsame : SameCache h h') : Tiled hc h' :=
  ht.grow hsame.pcMappings (fun k _ => congrFun hsame.translationCache k)
    hsame.translationCachePtr.ge

/-- The new block starts where all others have ended. -/
theorem Tiled.appended (ht : Tiled hc h) {address : Word} {indicator : Indicator}
    (ha : Appended hc address indicator h h') : Tiled hc h' := by
  have hptr := ha.ptr
  have hnew : ∀ {i : Indicator} {u : Nat},
      BlockAt hc h' h.translationCachePtr address i u → i = indicator := by
    intro i u hblock
    exact (ha.block.unique hblock).1
  constructor
  · intro item hmem
    rcases (ha.mappings item).mp hmem with rfl | hold
    · exact ⟨indicator, h.ghostPrefetches, ha.block, hptr.ge⟩
    · obtain ⟨indicator', unit, hblock, hend⟩ := ht.inside item hold
      exact ⟨indicator', unit, hblock.congr fun k hk => ha.below k (by omega), by omega⟩
  · intro x hx y hy hne ix ux iy uy hbx hby
    rcases (ha.mappings x).mp hx with rfl | hx <;> rcases (ha.mappings y).mp hy with rfl | hy
    · exact absurd rfl hne
    · exact .inr (ht.blockAt_old ha.below hy hby).2
    · exact .inl (ht.blockAt_old ha.below hx hbx).2
    · exact ht.disjoint x hx y hy hne ix ux iy uy (ht.blockAt_old ha.below hx hbx).1
        (ht.blockAt_old ha.below hy hby).1

theorem Tiled.appendJumper (ht : Tiled hc h) : Tiled hc (h.appendJumper hc) := by
  apply ht.grow
  · rfl
  · intro k hk
    simp only [Hart.appendJumper, Hart.copyChunk]
    rw [if_neg (by omega)]
  · exact Nat.le_add_right _ _

end Cache

/-! ## One round -/

/-- The translator of this round flushes the cache. -/
def FlushesNow (hc : HostCode) (blob : PrefetchBlob) (u : Vm) : Prop :=
  ∃ instruction v e, mmuInstructionRead32 blob.nextInstructionToFetch u = .ok instruction v ∧
    Vmm.translate instruction blob.nextInstructionToFetch = some e ∧
    ¬HasRoom hc v.hart e.indicator ∧ blob.isFlushable = true

/-- The hart as `PRECHECK_TRANSLATION_CACHE` passes it on, if it does. -/
def prechecked (hc : HostCode) (blob : PrefetchBlob) (indicator : Indicator) (h : Hart) :
    Option Hart :=
  if h.unoccupiedCacheSize hc < hc.blockSize indicator then
    if blob.isFlushable then some h.flushTranslationCache else none
  else
    some h

/-- Whatever this round translates, `add_translation_item` takes it. -/
def AddsNow (hc : HostCode) (blob : PrefetchBlob) (u : Vm) : Prop :=
  ∀ instruction v e h, mmuInstructionRead32 blob.nextInstructionToFetch u = .ok instruction v →
    Vmm.translate instruction blob.nextInstructionToFetch = some e →
    prechecked hc blob e.indicator v.hart = some h →
    (h.addTranslationItem hc blob.nextInstructionToFetch e.indicator).isSome = true

/-- The fetch of this round traps, or its translator knows the instruction. -/
def AcceptedNow (blob : PrefetchBlob) (u : Vm) : Prop :=
  match mmuInstructionRead32 blob.nextInstructionToFetch u with
  | .ok instruction _ => (Vmm.translate instruction blob.nextInstructionToFetch).isSome = true
  | .error e _ => e = .trap

section Round

variable {hc : HostCode} {base : Word} {blob : PrefetchBlob} {u v : Vm}

theorem sameCache_of_fetch (hfetch : FetchFrame u v) : SameCache u.hart v.hart := by
  rw [hfetch]
  exact ⟨rfl, rfl, rfl⟩

theorem fetchFrame_of_ok {va instruction : Word}
    (h : mmuInstructionRead32 va u = .ok instruction v) : FetchFrame u v :=
  (wp_of_ok h).mp (mmuInstructionRead32_frame va u)

theorem addsNow_of_cacheState (hs : CacheState base u.hart) : AddsNow hc blob u := by
  intro instruction v e h hread _ hprechecked
  have hv := hs.congr (sameCache_of_fetch (fetchFrame_of_ok hread))
  unfold prechecked at hprechecked
  split_ifs at hprechecked with hfull hfirst <;> obtain rfl := Option.some.inj hprechecked
  · exact addTranslationItem_isSome (cacheState_flush base v.hart) (hasRoom_flush hc _ _) _
  · exact addTranslationItem_isSome hv hfull _

/-- The translator of an instruction never fails: it commits, or it ends the unit. -/
theorem emit_succeeds (e : Emitted) (hs : CacheState base v.hart)
    (hwindow : InWindow base blob.nextInstructionToFetch)
    (hfresh : ∀ item ∈ v.hart.pcMappings, item.guestPc ≠ blob.nextInstructionToFetch) :
    Wp (emit hc e blob) (fun _ _ => True) (fun _ _ => False) v := by
  have hcommit : ∀ w : Vm, CacheState base w.hart → HasRoom hc w.hart e.indicator →
      (∀ item ∈ w.hart.pcMappings, item.guestPc ≠ blob.nextInstructionToFetch) →
      Wp (do
          commitTranslation hc blob.nextInstructionToFetch e.indicator e.params
          if e.stop then pure { blob with isToStop := true, isFlushable := false }
          else
            pure
              { blob with
                nextInstructionToFetch := blob.nextInstructionToFetch + 4, isFlushable := false })
        (fun _ _ => True) (fun _ _ => False) w := by
    intro w hw hroom hnew
    rw [wp_bind]
    apply wp_mono (commitTranslation_succeeds hw hroom hwindow hnew)
    · intro _ t _
      split <;> trivial
    · exact fun _ _ h => h
  unfold emit
  rw [wp_bind]
  apply wp_mono (precheckTranslationCache_frame hc e.indicator blob v) _ fun _ _ h => h
  rintro _ t (⟨hroom, rfl, rfl⟩ | ⟨-, -, rfl, rfl⟩ | ⟨-, -, rfl, rfl⟩)
  · exact hcommit _ hs hroom hfresh
  · have hflushed : HasRoom hc v.hart.flushTranslationCache e.indicator := hasRoom_flush hc _ _
    apply hcommit { v with hart := v.hart.flushTranslationCache } (cacheState_flush base v.hart)
      hflushed
    exact fun _ hmem => absurd hmem List.not_mem_nil
  · trivial

/-- A round fails by a trap of its fetch only. -/
theorem prefetchOneInstruction_traps (hs : CacheState base u.hart) (hcontinues : Continues blob u)
    (hwindow : InWindow base blob.nextInstructionToFetch) (haccepted : AcceptedNow blob u) :
    Wp (prefetchOneInstruction hc blob) (fun _ _ => True) (fun e _ => e = .trap) u := by
  unfold prefetchOneInstruction AcceptedNow at *
  rw [wp_bind]
  cases hread : mmuInstructionRead32 blob.nextInstructionToFetch u with
  | error e v =>
      rw [hread] at haccepted
      rw [wp_of_error hread]
      exact haccepted
  | ok instruction v =>
      rw [hread] at haccepted
      have hsame := sameCache_of_fetch (fetchFrame_of_ok hread)
      have hfresh := fresh_of_missed hs hcontinues.missed
      rw [← hsame.pcMappings] at hfresh
      obtain ⟨e, htranslate⟩ := Option.isSome_iff_exists.mp haccepted
      rw [wp_of_ok hread, htranslate]
      apply wp_mono (emit_succeeds e (hs.congr hsame) hwindow hfresh)
      · exact fun _ _ _ => trivial
      · exact fun _ _ hfalse => hfalse.elim

end Round

/-! ## All rounds -/

/-- What is asked of the guest: the pcs it fetches lie in the window, and their code is known. -/
structure GuestCode (hc : HostCode) (base : Word) (s : Vm) : Prop where
  window : ∀ n blob u, Rounds hc (initialBlob s.hart.pc) (started s) n blob u →
    Continues blob u → InWindow base blob.nextInstructionToFetch
  accepted : ∀ n blob u, Rounds hc (initialBlob s.hart.pc) (started s) n blob u →
    Continues blob u → AcceptedNow blob u

/-- What the loop keeps to after `n` rounds. -/
structure LoopState (hc : HostCode) (base : Word) (s : Vm) (n : Nat) (u : Vm) : Prop where
  cache : CacheState base u.hart
  tiled : Tiled hc s.hart → Tiled hc u.hart
  room : 0 < n → u.hart.translationCachePtr + hc.jumperSize ≤ TRANSLATION_CACHE_SIZE
  mapped : 0 < n → ∃ item ∈ u.hart.pcMappings, item.guestPc = s.hart.pc

section Loop

variable {hc : HostCode} {base : Word} {s u : Vm} {n : Nat} {blob : PrefetchBlob}

/-- The first block of a unit is that of the pc; later ones only add to the array. -/
private theorem mapped_of_committed {e : Emitted} {h h' : Hart}
    (hprogress : Progress s.hart.pc n blob u.hart)
    (ha : Appended hc blob.nextInstructionToFetch e.indicator h h')
    (hold : 0 < n → ∃ item ∈ h.pcMappings, item.guestPc = s.hart.pc) :
    ∃ item ∈ h'.pcMappings, item.guestPc = s.hart.pc := by
  rcases Nat.eq_zero_or_pos n with rfl | hpos
  · refine ⟨_, (ha.mappings _).mpr (.inl rfl), ?_⟩
    rw [hprogress.next]
    simp
  · obtain ⟨item, hmem, hpc⟩ := hold hpos
    exact ⟨item, (ha.mappings item).mpr (.inr hmem), hpc⟩

theorem loopState_of_rounds (hs : CacheState base s.hart) (hcode : GuestCode hc base s)
    (hrounds : Rounds hc (initialBlob s.hart.pc) (started s) n blob u) :
    LoopState hc base s n u := by
  induction hrounds with
  | zero =>
      have hsame : SameCache s.hart (started s).hart := ⟨rfl, rfl, rfl⟩
      exact ⟨hs.congr hsame, fun ht => ht.congr hsame, fun h => absurd h (lt_irrefl 0),
        fun h => absurd h (lt_irrefl 0)⟩
  | @succ n blob blob' u t rounds continues round ih =>
      obtain ⟨v, e, hfetch, hwf, heffect⟩ := round_effect round
      have hprogress := progress_of_rounds rounds continues.goesOn
      have hwindow := hcode.window n blob u rounds continues
      have hsame := sameCache_of_fetch hfetch
      have hv := ih.cache.congr hsame
      have hfresh : ∀ item ∈ v.hart.pcMappings, item.guestPc ≠ blob.nextInstructionToFetch := by
        rw [hsame.pcMappings]
        exact fresh_of_missed ih.cache continues.missed
      have htiled : Tiled hc s.hart → Tiled hc v.hart := fun ht => (ih.tiled ht).congr hsame
      cases heffect with
      | full room kept =>
          -- the flag is down, so this is not the first round
          have hpos : 0 < n := by
            rw [hprogress.flushable] at kept
            exact Nat.pos_of_ne_zero (of_decide_eq_false kept)
          refine ⟨hv, htiled, fun _ => ?_, fun _ => ?_⟩
          · rw [hsame.translationCachePtr]
            exact ih.room hpos
          · rw [hsame.pcMappings]
            exact ih.mapped hpos
      | added room commit =>
          have happended := appended_of_committed hwf commit hfresh
          obtain ⟨hcache, hroom⟩ := Committed.cacheState hv hwf commit hwindow hfresh
          refine ⟨hcache, fun ht => (htiled ht).appended happended, fun _ => hroom, fun _ => ?_⟩
          apply mapped_of_committed hprogress happended
          rw [hsame.pcMappings]
          exact ih.mapped
      | flushed room first commit =>
          have hnone : ∀ item ∈ v.hart.flushTranslationCache.pcMappings,
              item.guestPc ≠ blob.nextInstructionToFetch :=
            fun _ hmem => absurd hmem List.not_mem_nil
          have happended := appended_of_committed hwf commit hnone
          obtain ⟨hcache, hroom⟩ :=
            Committed.cacheState (cacheState_flush base v.hart) hwf commit hwindow hnone
          refine ⟨hcache, fun _ => (tiled_flush hc v.hart).appended happended, fun _ => hroom,
            fun _ => ?_⟩
          apply mapped_of_committed hprogress happended
          intro hpos
          rw [hprogress.flushable] at first
          exact absurd (of_decide_eq_true first) hpos.ne'

/-- Only the first round can flush, so there is at most one flush. -/
theorem eq_zero_of_flushesNow
    (hrounds : Rounds hc (initialBlob s.hart.pc) (started s) n blob u)
    (hcontinues : Continues blob u) (hflushes : FlushesNow hc blob u) : n = 0 := by
  obtain ⟨_, _, _, _, _, _, hfirst⟩ := hflushes
  rw [(progress_of_rounds hrounds hcontinues.goesOn).flushable] at hfirst
  exact of_decide_eq_true hfirst

/-! ## A whole prefetch -/

/-- What a prefetch from `s` that returns has left in `t`. -/
structure Prefetched (hc : HostCode) (base : Word) (s t : Vm) : Prop where
  cache : CacheState base t.hart
  tiled : Tiled hc s.hart → Tiled hc t.hart
  mapped : ∃ ti, searchTranslationItem t.hart.pcMappings t.hart.pc = some ti ∧
    vmresume hc s = runCache hc TRANSLATION_CACHE_SIZE ti.tcOffset (entryCpu hc) t

theorem cacheState_closed (hl : LoopState hc base s n u)
    (hmoved : s.hart.translationCachePtr ≠ u.hart.translationCachePtr → 0 < n) :
    CacheState base (closed hc s.hart.translationCachePtr u).hart := by
  unfold closed
  split
  · rename_i hptr
    exact ⟨hl.cache.items, hl.room (hmoved hptr), hl.cache.sorted, hl.cache.window⟩
  · exact hl.cache

theorem tiled_closed (hl : LoopState hc base s n u) (ht : Tiled hc s.hart) :
    Tiled hc (closed hc s.hart.translationCachePtr u).hart := by
  unfold closed
  split
  · exact (hl.tiled ht).appendJumper
  · exact hl.tiled ht

theorem pcMappings_closed (hc : HostCode) (oldTransPtr : Nat) (u : Vm) :
    (closed hc oldTransPtr u).hart.pcMappings = u.hart.pcMappings := by
  unfold closed
  split <;> rfl

theorem pc_closed (hc : HostCode) (oldTransPtr : Nat) (u : Vm) :
    (closed hc oldTransPtr u).hart.pc = u.hart.pc := by
  unfold closed
  split <;> rfl

/-- The pc the prefetch started from is found: it was mapped, or its block came first. -/
theorem search_pc (hl : LoopState hc base s n u)
    (hrounds : Rounds hc (initialBlob s.hart.pc) (started s) n blob u)
    (hended : ¬Continues blob u) :
    ∃ ti, searchTranslationItem u.hart.pcMappings s.hart.pc = some ti := by
  rcases Nat.eq_zero_or_pos n with rfl | hpos
  · cases hrounds
    apply Option.ne_none_iff_exists'.mp
    exact fun hmissed => hended ⟨rfl, hmissed⟩
  · obtain ⟨item, hmem, hpc⟩ := hl.mapped hpos
    rw [← hpc]
    exact ⟨item, searchTranslationItem_of_mem hl.cache.sorted hmem⟩

theorem vmresume_of_mapped {t : Vm} {ti : MappingItem}
    (hok : prefetchInstructions hc s = .ok () t)
    (hfound : searchTranslationItem t.hart.pcMappings t.hart.pc = some ti) :
    vmresume hc s = runCache hc TRANSLATION_CACHE_SIZE ti.tcOffset (entryCpu hc) t := by
  unfold vmresume
  rw [bind_apply_ok hok, bind_apply_ok (get_apply t)]
  simp only [hfound]

theorem prefetched_of_ended (hl : LoopState hc base s n u)
    (hrounds : Rounds hc (initialBlob s.hart.pc) (started s) n blob u)
    (hended : ¬Continues blob u)
    (hok : prefetchInstructions hc s = .ok () (closed hc s.hart.translationCachePtr u)) :
    Prefetched hc base s (closed hc s.hart.translationCachePtr u) := by
  have hmoved : s.hart.translationCachePtr ≠ u.hart.translationCachePtr → 0 < n := by
    intro hptr
    apply Nat.pos_of_ne_zero
    rintro rfl
    cases hrounds
    exact hptr rfl
  have hpc : u.hart.pc = s.hart.pc := by
    rw [hrounds.frame]
    rfl
  obtain ⟨ti, hfound⟩ := search_pc hl hrounds hended
  rw [← hpc, ← pcMappings_closed hc s.hart.translationCachePtr u,
    ← pc_closed hc s.hart.translationCachePtr u] at hfound
  exact ⟨cacheState_closed hl hmoved, tiled_closed hl, ti, hfound, vmresume_of_mapped hok hfound⟩

/--
A prefetch from a bounded cache goes through finitely many rounds.  In every
one of them both bounds hold, the blocks stay apart, `add_translation_item`
succeeds, and only the first may flush.  It leaves by a fetch trap, or it ends
with its pc mapped, so that `vmresume` enters the cache there.
-/
theorem prefetch_progress (hs : CacheState base s.hart) (hcode : GuestCode hc base s) :
    (∀ n blob u, Rounds hc (initialBlob s.hart.pc) (started s) n blob u →
      n < prefetchRounds ∧ CacheState base u.hart ∧ (Tiled hc s.hart → Tiled hc u.hart) ∧
        (Continues blob u → AddsNow hc blob u ∧ (FlushesNow hc blob u → n = 0))) ∧
    ((∃ n blob u, Rounds hc (initialBlob s.hart.pc) (started s) n blob u ∧ Continues blob u ∧
        FetchFault u blob.nextInstructionToFetch ∧
        prefetchInstructions hc s =
          .error .trap (fetchFaulted u blob.nextInstructionToFetch)) ∨
      ∃ n blob u, Rounds hc (initialBlob s.hart.pc) (started s) n blob u ∧ ¬Continues blob u ∧
        prefetchInstructions hc s = .ok () (closed hc s.hart.translationCachePtr u) ∧
        Prefetched hc base s (closed hc s.hart.translationCachePtr u)) := by
  constructor
  · intro n blob u hrounds
    have hl := loopState_of_rounds hs hcode hrounds
    exact ⟨rounds_lt hrounds, hl.cache, hl.tiled, fun hcontinues =>
      ⟨addsNow_of_cacheState hl.cache, eq_zero_of_flushesNow hrounds hcontinues⟩⟩
  · cases hprefetch : prefetchInstructions hc s with
    | ok _ t =>
        obtain ⟨n, blob, u, hrounds, hended, rfl⟩ := rounds_of_prefetchInstructions_ok hprefetch
        have hl := loopState_of_rounds hs hcode hrounds
        exact .inr ⟨n, blob, u, hrounds, hended, rfl,
          prefetched_of_ended hl hrounds hended hprefetch⟩
    | error e t =>
        obtain ⟨n, blob, u, hrounds, hcontinues, hround⟩ :=
          rounds_of_prefetchInstructions_error hprefetch
        have hl := loopState_of_rounds hs hcode hrounds
        -- a round that finds its instruction known cannot fail
        obtain rfl : e = .trap := (wp_of_error hround).mp
          (prefetchOneInstruction_traps hl.cache hcontinues
            (hcode.window n blob u hrounds hcontinues) (hcode.accepted n blob u hrounds hcontinues))
        obtain ⟨hfault, rfl⟩ :=
          (wp_of_error hround).mp (prefetchOneInstruction_frame hc blob u) rfl
        exact .inl ⟨n, blob, u, hrounds, hcontinues, hfault, rfl⟩

end Loop

/-! ### The boot ROM's first unit -/

theorem acceptedNow_of_nextRound {hc : HostCode} {blob : PrefetchBlob} {u : Vm}
    (hnext : NextRound hc blob u) (hcontinues : Continues blob u) : AcceptedNow blob u := by
  obtain ⟨blob', t, hround⟩ := hnext hcontinues
  unfold prefetchOneInstruction at hround
  unfold AcceptedNow
  cases hread : mmuInstructionRead32 blob.nextInstructionToFetch u with
  | error e v =>
      rw [bind_apply_error hread] at hround
      cases hround
  | ok instruction v =>
      rw [bind_apply_ok hread] at hround
      cases htranslate : Vmm.translate instruction blob.nextInstructionToFetch with
      | none =>
          rw [htranslate] at hround
          cases hround
      | some emitted =>
          show (Vmm.translate instruction blob.nextInstructionToFetch).isSome = true
          rw [htranslate]
          rfl

/-- Rounds that all succeed fetch known code. -/
theorem guestCode_of_roundsPass {hc : HostCode} {base : Word} {s : Vm} {rounds : Nat}
    (hpass : roundsPass hc
      (fun _ blob u => !goesOnAt blob u || decide (InWindow base blob.nextInstructionToFetch))
      rounds 0 (initialBlob s.hart.pc) (started s) = true) : GuestCode hc base s := by
  constructor
  · intro n blob u hrounds hcontinues
    have hwindow := (check_of_roundsPass hpass hrounds).1
    rw [goesOnAt_iff.mpr hcontinues] at hwindow
    exact of_decide_eq_true hwindow
  · intro n blob u hrounds hcontinues
    exact acceptedNow_of_nextRound (check_of_roundsPass hpass hrounds).2 hcontinues

open AddressSpace (bootVm) in
/-- Seven rounds into an empty cache, whose blocks lie side by side. -/
theorem prefetch_progress_loop :
    ∃ t, prefetchInstructions evenHostCode bootVm = .ok () t ∧
      t.hart.pcMappings.length = 7 ∧ Prefetched evenHostCode 0x4000 bootVm t ∧
      Tiled evenHostCode t.hart := by
  have hok : isOk (prefetchInstructions evenHostCode bootVm) = true := by decide +kernel
  have hlength : (finalState (prefetchInstructions evenHostCode bootVm)).hart.pcMappings.length =
      7 := by
    decide +kernel
  obtain ⟨_, hran⟩ := eq_ok_of_isOk hok
  have hpass : roundsPass evenHostCode
      (fun _ blob u => !goesOnAt blob u || decide (InWindow 0x4000 blob.nextInstructionToFetch))
      8 0 (initialBlob bootVm.hart.pc) (started bootVm) = true := by
    decide +kernel
  have hcode : GuestCode evenHostCode 0x4000 bootVm := guestCode_of_roundsPass hpass
  have hs : CacheState 0x4000 bootVm.hart := cacheState_of_empty 0x4000 rfl (Nat.zero_le _)
  rcases (prefetch_progress hs hcode).2 with ⟨_, _, _, _, _, _, htrap⟩ | ⟨_, _, _, _, _, hrun, hend⟩
  · rw [hran] at htrap
    cases htrap
  · have hsame := (EStateM.Result.ok.inj (hran.symm.trans hrun)).2
    rw [← hsame] at hend
    exact ⟨_, hran, hlength, hend, hend.tiled (tiled_of_empty rfl)⟩

end Zelda.Proofs.PrefetchProgress
