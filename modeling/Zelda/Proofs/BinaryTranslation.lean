import Zelda.Proofs.AlignedPc
import Zelda.Proofs.Interpreter
/-!
# Binary translation preserves the guest program

The cache holds translations of the words fetched since it was last empty.
Entering it at the pc executes these words one after another as the plain
interpreter does, up to the first instruction that leaves the cache or fails,
so every run of the emulator is a run of the interpreter on the same program.
-/

namespace Zelda.Proofs.BinaryTranslation

open Zelda.Vmm
open Zelda.Lib.Effect
open Zelda.Lib.X86
open Zelda.Proofs.Callees
open Zelda.Proofs.FallThrough
open Zelda.Proofs.FetchFaults
open Zelda.Proofs.Frames
open Zelda.Proofs.Instructions
open Zelda.Proofs.Interpreter
open Zelda.Proofs.Prefetch
open Zelda.Proofs.Templates

/-! ## The guest program -/

/-- The instruction words of the guest, by virtual address. -/
abbrev Program := Word → Option Word

/-- The decoded instruction at `pc`. -/
def decodeAt (program : Program) (pc : Word) : Option Emitted :=
  (program pc).bind fun word => Vmm.translate word pc

/-- Up to `n` instructions of the program from the pc on, until one leaves straight-line code. -/
def interpretUnit (program : Program) : Nat → VmM Unit
  | 0 => pure ()
  | n + 1 => do
      let vm ← get
      match decodeAt program vm.hart.pc with
      | none => throw .exit
      | some e => do
          interpret e
          if e.stop then pure () else interpretUnit program n

/-- Every mapped pc has the block of the program's instruction there. -/
def Sourced (hc : HostCode) (program : Program) (h : Hart) : Prop :=
  ∀ item ∈ h.pcMappings, ∃ e, decodeAt program item.guestPc = some e ∧
    Installed hc e item.guestPc h item.tcOffset ∧
    item.tcOffset + hc.blockSize e.indicator ≤ h.translationCachePtr

theorem wellFormed_decodeAt {program : Program} {pc : Word} {e : Emitted}
    (h : decodeAt program pc = some e) : WellFormed e := by
  obtain ⟨word, -, htranslate⟩ := Option.bind_eq_some_iff.mp h
  exact wellFormed_translate htranslate

section Sourced

variable {hc : HostCode} {program : Program} {h h' : Hart} {e : Emitted} {pc : Word} {offset : Nat}

/-- A block depends on its own bytes only. -/
theorem installed_congr (hinstalled : Installed hc e pc h offset)
    (hsame : ∀ k, k < offset + hc.blockSize e.indicator →
      h'.translationCache k = h.translationCache k)
    (hlength : e.params.length = e.indicator.nrParams) : Installed hc e pc h' offset := by
  obtain ⟨unit, hblock⟩ := hinstalled.block
  refine ⟨⟨unit, hblock.congr hsame⟩, fun j w hw => ?_⟩
  obtain ⟨hj, -⟩ := List.getElem?_eq_some_iff.mp hw
  have hsize := hc.params_lt e.indicator
  have hparam := hinstalled.params j w hw
  simp only [Hart.tcParam] at hparam ⊢
  rw [hsame _ (by omega), hsame _ (by omega), hsame _ (by omega), hsame _ (by omega)]
  exact hparam

theorem sourced_of_empty (hempty : h.pcMappings = []) : Sourced hc program h := by
  intro item hmem
  rw [hempty] at hmem
  exact absurd hmem List.not_mem_nil

/-- Bytes behind the end of the cache do not matter. -/
theorem sourced_of_below (hs : Sourced hc program h) (hmappings : h'.pcMappings = h.pcMappings)
    (hbelow : ∀ k, k < h.translationCachePtr → h'.translationCache k = h.translationCache k)
    (hptr : h.translationCachePtr ≤ h'.translationCachePtr) : Sourced hc program h' := by
  intro item hmem
  rw [hmappings] at hmem
  obtain ⟨e, hdecode, hinstalled, hend⟩ := hs item hmem
  refine ⟨e, hdecode, ?_, by omega⟩
  exact installed_congr hinstalled (fun k hk => hbelow k (by omega)) (wellFormed_decodeAt hdecode).1

theorem sourced_of_kept (hkept : Kept h h') (hs : Sourced hc program h) : Sourced hc program h' := by
  rcases hkept.mappings with hempty | ⟨hmappings, hptr⟩
  · exact sourced_of_empty hempty
  · exact sourced_of_below hs hmappings (fun k _ => congrFun hkept.translationCache k) hptr.ge

theorem sourced_appendJumper (hs : Sourced hc program h) :
    Sourced hc program (h.appendJumper hc) := by
  refine sourced_of_below hs rfl (fun k hk => ?_) (Nat.le_add_right _ _)
  simp only [Hart.appendJumper, Hart.copyChunk]
  rw [if_neg (by omega)]

theorem sourced_committed (hs : Sourced hc program h) (hcommit : Committed hc e pc h h')
    (hfresh : ∀ item ∈ h.pcMappings, item.guestPc ≠ pc) (hdecode : decodeAt program pc = some e) :
    Sourced hc program h' := by
  have hwf := wellFormed_decodeAt hdecode
  have happended := appended_of_committed hwf hcommit hfresh
  intro item hmem
  rcases (happended.mappings item).mp hmem with rfl | hold
  · exact ⟨e, hdecode, installed_of_committed hwf hcommit hfresh, happended.ptr.ge⟩
  · obtain ⟨e', hdecode', hinstalled, hend⟩ := hs item hold
    refine ⟨e', hdecode', ?_, ?_⟩
    · exact installed_congr hinstalled (fun k hk => happended.below k (by omega))
        (wellFormed_decodeAt hdecode').1
    · rw [happended.ptr]
      omega

end Sourced

/-! ## Prefetching the program -/

/--
What a prefetch from `s` must find: the program where it fetches and no fault
behind its first instruction.  The rest is `CleanPrefetch`: the search misses no
pc that is mapped, and after a flush the unit does not end exactly at the old
end of the cache behind a block that falls through.
-/
structure Faithful (hc : HostCode) (program : Program) (s : Vm) : Prop where
  clean : CleanPrefetch hc s
  reads : ∀ n blob u, Rounds hc (initialBlob s.hart.pc) (started s) n blob u → Continues blob u →
    ∀ word v, mmuInstructionRead32 blob.nextInstructionToFetch u = .ok word v →
      program blob.nextInstructionToFetch = some word
  faults : ¬RunsIntoFault hc s

/-- A round that succeeds, with the word it fetched. -/
structure Round (hc : HostCode) (blob blob' : PrefetchBlob) (s t : Vm) (word : Word) (u : Vm)
    (e : Emitted) : Prop where
  fetched : mmuInstructionRead32 blob.nextInstructionToFetch s = .ok word u
  frame : FetchFrame s u
  translated : Vmm.translate word blob.nextInstructionToFetch = some e
  effect : RoundEffect hc e blob u blob' t

theorem round_of_ok {hc : HostCode} {blob blob' : PrefetchBlob} {s t : Vm}
    (h : prefetchOneInstruction hc blob s = .ok blob' t) :
    ∃ word u e, Round hc blob blob' s t word u e := by
  unfold prefetchOneInstruction at h
  cases hfetch : mmuInstructionRead32 blob.nextInstructionToFetch s with
  | error e u =>
      rw [bind_apply_error hfetch] at h
      cases h
  | ok word u =>
      rw [bind_apply_ok hfetch] at h
      have hframe := (wp_of_ok hfetch).mp (mmuInstructionRead32_frame _ s)
      cases htranslate : Vmm.translate word blob.nextInstructionToFetch with
      | none =>
          rw [htranslate] at h
          cases h
      | some e =>
          rw [htranslate] at h
          have heffect := (wp_of_ok h).mp (emit_frame hc e blob u)
          exact ⟨word, u, e, hfetch, hframe, htranslate, heffect⟩

section Prefetch

variable {hc : HostCode} {program : Program} {s t : Vm}

theorem sourced_of_rounds (hs : Sourced hc program s.hart) (hfaithful : Faithful hc program s)
    {n : Nat} {blob : PrefetchBlob} {u : Vm}
    (hrounds : Rounds hc (initialBlob s.hart.pc) (started s) n blob u) :
    Sourced hc program u.hart := by
  induction hrounds with
  | zero => exact sourced_of_below hs rfl (fun _ _ => rfl) le_rfl
  | @succ n blob blob' u t rounds continues round ih =>
      obtain ⟨word, v, e, hround⟩ := round_of_ok round
      have hread := hfaithful.reads n blob u rounds continues word v hround.fetched
      have hdecode : decodeAt program blob.nextInstructionToFetch = some e := by
        rw [decodeAt, hread]
        exact hround.translated
      have hfresh := hfaithful.clean.fresh n blob u rounds continues
      have hframe := hround.frame
      have hsourced : Sourced hc program v.hart := by
        rw [hframe]
        exact sourced_of_below ih rfl (fun _ _ => rfl) le_rfl
      have hmappings : v.hart.pcMappings = u.hart.pcMappings := by rw [hframe]
      rw [← hmappings] at hfresh
      cases hround.effect with
      | full room kept => exact hsourced
      | added room commit => exact sourced_committed hsourced commit hfresh hdecode
      | flushed room first commit =>
          refine sourced_committed (sourced_of_empty rfl) commit ?_ hdecode
          exact fun item hmem => absurd hmem List.not_mem_nil

theorem sourced_prefetch_ok (hs : Sourced hc program s.hart) (hfaithful : Faithful hc program s)
    (h : prefetchInstructions hc s = .ok () t) : Sourced hc program t.hart := by
  obtain ⟨n, blob, u, hrounds, -, rfl⟩ := rounds_of_prefetchInstructions_ok h
  have hsourced := sourced_of_rounds hs hfaithful hrounds
  unfold closed
  split
  · exact sourced_appendJumper hsourced
  · exact hsourced

/-- A prefetch that traps has found nothing at the pc itself. -/
theorem prefetch_trap_eq (hfaithful : Faithful hc program s)
    (h : prefetchInstructions hc s = .error .trap t) :
    FetchFault (started s) s.hart.pc ∧ t = fetchFaulted (started s) s.hart.pc := by
  obtain ⟨n, blob, u, hrounds, hcontinues, hfault, rfl⟩ := rounds_of_prefetchInstructions_trap h
  rcases Nat.eq_zero_or_pos n with rfl | hpos
  · cases hrounds
    exact ⟨hfault, rfl⟩
  · exact absurd ⟨n, blob, u, hpos, hrounds, hcontinues, hfault⟩ hfaithful.faults

theorem sourced_prefetch_trap (hs : Sourced hc program s.hart) (hfaithful : Faithful hc program s)
    (h : prefetchInstructions hc s = .error .trap t) : Sourced hc program t.hart := by
  obtain ⟨-, ht⟩ := prefetch_trap_eq hfaithful h
  have hstarted : Sourced hc program (started s).hart := sourced_of_rounds hs hfaithful .zero
  have hkept : Kept (started s).hart (fetchFaulted (started s) s.hart.pc).hart :=
    kept_takeTrap (.refl (started s).hart) _ _ _
  rw [ht]
  exact sourced_of_kept hkept hstarted

end Prefetch

/-! ## Entering the cache -/

/-- A block that falls through goes on to the next instruction. -/
theorem jumpTarget_of_fallsThrough {indicator : Indicator} (h : indicator.fallsThrough = true)
    (word address : Word) (hart : Hart) :
    AlignedPc.jumpTarget word address hart indicator = none := by
  cases indicator <;> first | rfl | cases h

section Entering

variable {hc : HostCode} {program : Program} {h : Hart}

/-- The run of a block at the pc, as the interpreter sees it. -/
theorem runBlock_at {item : MappingItem} {e : Emitted}
    (hdecode : decodeAt program item.guestPc = some e)
    (hinstalled : Installed hc e item.guestPc h item.tcOffset) {c : Cpu} (hready : Ready hc c)
    {s : Vm} (hsame : s.hart.translationCache = h.translationCache)
    (hpc : s.hart.pc = item.guestPc) :
    Wp (runBlock hc e.indicator (cacheParams hc s.hart item.tcOffset e.indicator) c)
      (fun r t => interpret e s = .ok () t ∧ r.1 = endOf e.indicator ∧ Ready hc r.2 ∧
        t.hart.translationCache = h.translationCache ∧
        (e.indicator.fallsThrough = true → t.hart.pc = item.guestPc + 4))
      (fun a t => interpret e s = .error a t) s := by
  obtain ⟨word, -, htranslate⟩ := Option.bind_eq_some_iff.mp hdecode
  have hcache : Installed hc e item.guestPc s.hart item.tcOffset :=
    installed_congr hinstalled (fun k _ => congrFun hsame k) (wellFormed_translate htranslate).1
  have hparams := hcache.paramsOf
  have hinterprets : Wp (runBlock hc e.indicator _ c) _ _ s :=
    runBlock_interprets hready htranslate hparams
  have hlands : Wp (runBlock hc e.indicator _ c) _ _ s :=
    AlignedPc.block_lands hready htranslate hparams
  have hkept := runBlock_kept hc e.indicator (cacheParams hc s.hart item.tcOffset e.indicator) c s
  refine wp_mono (wp_and hinterprets (wp_and hlands hkept)) ?_ fun _ _ herror => herror.1
  rintro r t ⟨⟨hok, hend, hready'⟩, hnext, hkept⟩
  refine ⟨hok, hend, hready', hkept.translationCache.trans hsame, fun hfalls => ?_⟩
  rw [hnext, jumpTarget_of_fallsThrough hfalls, hpc]
  rfl

/-- Up to `n` instructions, of which the first is `e`. -/
theorem interpretUnit_succ {e : Emitted} {s : Vm} (hdecode : decodeAt program s.hart.pc = some e)
    (n : Nat) :
    interpretUnit program (n + 1) s =
      (do
        interpret e
        if e.stop then pure () else interpretUnit program n) s := by
  rw [interpretUnit, bind_apply_ok (get_apply s), hdecode]

/-- Entering the cache of `h` at `offset`, with the pc at `pc`, interprets `n` instructions. -/
def Interprets (hc : HostCode) (program : Program) (h : Hart) (n offset : Nat) (pc : Word) : Prop :=
  ∀ (steps : Nat) (c : Cpu) (s : Vm), n < steps → Ready hc c →
    s.hart.translationCache = h.translationCache → s.hart.pc = pc →
    runCache hc steps offset c s = interpretUnit program n s

theorem interprets_jumper {offset : Nat} (hjumper : JumperAt hc h offset) (pc : Word) :
    Interprets hc program h 0 offset pc := by
  intro steps c s hsteps _ hsame _
  obtain ⟨steps, rfl⟩ : ∃ k, steps = k + 1 := ⟨steps - 1, by omega⟩
  have hfirst := hjumper 0 hc.jumperSize_pos
  rw [Nat.add_zero, ← hsame] at hfirst
  rw [runCache, bind_apply_ok (get_apply s), hfirst]
  rfl

/-- A block interprets its instruction; one that falls through goes on with what follows. -/
theorem interprets_block {item : MappingItem} {e : Emitted} {n : Nat}
    (hdecode : decodeAt program item.guestPc = some e)
    (hinstalled : Installed hc e item.guestPc h item.tcOffset)
    (hrest : e.indicator.fallsThrough = true →
      Interprets hc program h n (item.tcOffset + hc.blockSize e.indicator) (item.guestPc + 4)) :
    Interprets hc program h (n + 1) item.tcOffset item.guestPc := by
  intro steps c s hsteps hready hsame hpc
  obtain ⟨steps, rfl⟩ : ∃ k, steps = k + 1 := ⟨steps - 1, by omega⟩
  obtain ⟨unit, hblock⟩ := hinstalled.block
  have hfirst := hblock.code 0 (blockSize_pos hc e.indicator)
  rw [Nat.add_zero, ← hsame] at hfirst
  have hrun := runBlock_at hdecode hinstalled hready hsame hpc
  rw [← hpc] at hdecode
  rw [interpretUnit_succ hdecode, runCache, bind_apply_ok (get_apply s), hfirst,
    (wellFormed_decodeAt hdecode).2]
  unfold cacheParams at hrun
  simp only
  set param := fun i => (s.hart.tcParam hc item.tcOffset e.indicator i).getD 0
  cases hblockRun : runBlock hc e.indicator param c s with
  | error a t => rw [bind_apply_error hblockRun, bind_apply_error ((wp_of_error hblockRun).mp hrun)]
  | ok r t =>
      obtain ⟨exit, c'⟩ := r
      obtain ⟨hok, hend, hready', hcache, hnext⟩ := (wp_of_ok hblockRun).mp hrun
      rw [bind_apply_ok hblockRun, bind_apply_ok hok]
      simp only [endOf] at hend
      cases hfalls : e.indicator.fallsThrough with
      | false =>
          rw [hfalls] at hend
          subst hend
          rfl
      | true =>
          rw [hfalls] at hend
          subst hend
          exact hrest hfalls steps c' t (by omega) hready' hcache (hnext hfalls)

/--
Entering the cache at a mapped pc interprets the program from there on, as far
as the blocks behind it fall through.
-/
theorem interprets_of_laid (hl : Laid hc h Settled) (hs : Sourced hc program h)
    {item : MappingItem} (hmem : item ∈ h.pcMappings) :
    ∃ n, 0 < n ∧ item.tcOffset + n + hc.jumperSize ≤ TRANSLATION_CACHE_SIZE ∧
      Interprets hc program h n item.tcOffset item.guestPc := by
  -- The distance to the end of the cache decreases from block to block.
  induction hdist : h.translationCachePtr - item.tcOffset using Nat.strong_induction_on
    generalizing item with
  | _ distance ih =>
      obtain ⟨indicator, unit, hblock, hptr, hfits, hfalls⟩ := hl item hmem
      obtain ⟨e, hdecode, hinstalled, -⟩ := hs item hmem
      obtain ⟨unit', hblock'⟩ := hinstalled.block
      obtain ⟨rfl, rfl⟩ := hblock'.unique hblock
      have hsize := hc.params_lt e.indicator
      by_cases hf : e.indicator.fallsThrough = true
      · rcases hfalls hf with (⟨hjumper, hend⟩ | ⟨next, hnext, indicator', hpc, hoffset, -, -⟩) |
          ⟨-, hfalse⟩
        · refine ⟨1, Nat.one_pos, by omega, interprets_block hdecode hinstalled fun _ => ?_⟩
          exact interprets_jumper hjumper _
        · obtain ⟨n, hpos, hlength, hrest⟩ :=
            ih (h.translationCachePtr - next.tcOffset) (by omega) hnext rfl
          rw [hpc, hoffset] at hrest
          refine ⟨n + 1, Nat.succ_pos n, by omega, ?_⟩
          exact interprets_block hdecode hinstalled fun _ => hrest
        · exact hfalse.elim
      · refine ⟨1, Nat.one_pos, by omega, interprets_block hdecode hinstalled fun hfalls => ?_⟩
        exact absurd hfalls hf

end Entering

/-! ## Runs of the emulator -/

/--
A run of the emulator from `s₀` with its cache empty there: `vmexit` polls the
devices and resumes, again and again, or is left by a trap.
-/
inductive Emulated (hc : HostCode) (program : Program) (s₀ : Vm) : Vm → Prop
  | start : Emulated hc program s₀ s₀
  | pump {s t : Vm} (run : Emulated hc program s₀ s)
      (ran : pumpDevicesAndDeliverInterrupts s = .ok () t ∨
        pumpDevicesAndDeliverInterrupts s = .error .trap t) : Emulated hc program s₀ t
  | resume {s t : Vm} (run : Emulated hc program s₀ s) (faithful : Faithful hc program s)
      (ran : vmresume hc s = .ok () t ∨ vmresume hc s = .error .trap t) : Emulated hc program s₀ t

section Emulated

variable {hc : HostCode} {program : Program} {s₀ s t : Vm}

/-- Polling leaves the cache as it was, or flushed. -/
theorem kept_pump (ran : pumpDevicesAndDeliverInterrupts s = .ok () t ∨
    pumpDevicesAndDeliverInterrupts s = .error .trap t) : Kept s.hart t.hart := by
  have hends := ends_pumpDevicesAndDeliverInterrupts (privilegedClosed_kept s.hart).refresh
    (leaves_kept s.hart) (fun _ _ _ _ _ => True.intro) s (Kept.refl s.hart)
  rcases ran with ran | ran
  · exact (wp_of_ok ran).mp hends
  · exact (wp_of_error ran).mp hends

/-- After a prefetch, a resume fails to find the pc or enters the cache at it. -/
theorem vmresume_of_prefetch (h : prefetchInstructions hc s = .ok () t) :
    vmresume hc s =
      match searchTranslationItem t.hart.pcMappings t.hart.pc with
      | none => .error .exit t
      | some item => runCache hc TRANSLATION_CACHE_SIZE item.tcOffset (entryCpu hc) t := by
  unfold vmresume
  rw [bind_apply_ok h, bind_apply_ok (get_apply t)]
  cases searchTranslationItem t.hart.pcMappings t.hart.pc <;> rfl

/-- A resume leaves only blocks of the program in the cache. -/
theorem sourced_resume (hs : Sourced hc program s.hart) (hfaithful : Faithful hc program s)
    (ran : vmresume hc s = .ok () t ∨ vmresume hc s = .error .trap t) :
    Sourced hc program t.hart := by
  cases hprefetch : prefetchInstructions hc s with
  | error e u =>
      rw [vmresume_of_prefetch_error hprefetch] at ran
      rcases ran with ran | ran
      · cases ran
      · cases ran
        exact sourced_prefetch_trap hs hfaithful hprefetch
  | ok _ u =>
      have hsourced := sourced_prefetch_ok hs hfaithful hprefetch
      rw [vmresume_of_prefetch hprefetch] at ran
      cases hsearch : searchTranslationItem u.hart.pcMappings u.hart.pc with
      | none =>
          simp only [hsearch] at ran
          rcases ran with ran | ran <;> cases ran
      | some item =>
          simp only [hsearch] at ran
          have hkept := runCache_kept hc TRANSLATION_CACHE_SIZE item.tcOffset (entryCpu hc) u
          rcases ran with ran | ran
          · exact sourced_of_kept ((wp_of_ok ran).mp hkept) hsourced
          · exact sourced_of_kept ((wp_of_error ran).mp hkept) hsourced

theorem Emulated.cache (h : Emulated hc program s₀ s) (hempty : s₀.hart.pcMappings = []) :
    Laid hc s.hart Settled ∧ Sourced hc program s.hart := by
  induction h with
  | start => exact ⟨laid_of_empty hempty, sourced_of_empty hempty⟩
  | pump _ ran ih =>
      have hkept := kept_pump ran
      exact ⟨laid_of_kept hkept ih.1, sourced_of_kept hkept ih.2⟩
  | resume _ faithful ran ih =>
      refine ⟨?_, sourced_resume ih.2 faithful ran⟩
      have hwp := laid_vmresume ih.1 faithful.clean
      rcases ran with ran | ran
      · exact (wp_of_ok ran).mp hwp
      · exact (wp_of_error ran).mp hwp rfl

/-- A resume, once its prefetch has succeeded. -/
theorem resume_unit (hl : Laid hc s.hart Settled) (hs : Sourced hc program s.hart)
    (hfaithful : Faithful hc program s) (hprefetch : prefetchInstructions hc s = .ok () t) :
    (searchTranslationItem t.hart.pcMappings t.hart.pc = none ∧
      vmresume hc s = .error .exit t) ∨
    ∃ n, 0 < n ∧ vmresume hc s = interpretUnit program n t := by
  rw [vmresume_of_prefetch hprefetch]
  cases hsearch : searchTranslationItem t.hart.pcMappings t.hart.pc with
  | none => exact .inl ⟨rfl, rfl⟩
  | some item =>
      obtain ⟨hmem, hpc⟩ := MappingArray.searchTranslationItem_sound hsearch
      obtain ⟨n, hpos, hlength, hinterprets⟩ :=
        interprets_of_laid (laid_prefetch_ok hl hfaithful.clean hprefetch)
          (sourced_prefetch_ok hs hfaithful hprefetch) hmem
      have hjumper := hc.jumperSize_pos
      refine .inr ⟨n, hpos, ?_⟩
      exact hinterprets _ _ t (by omega) (ready_entryCpu hc) rfl hpc.symm

/--
In every state of a run, once the prefetch has succeeded, a resume ends exactly
as interpreting some number of the program's instructions does: with the same
state, the same trap or the same failure.  Only the search for the pc may come
back empty instead, and then the emulator gives up.
-/
theorem resume_interprets (h : Emulated hc program s₀ s) (hempty : s₀.hart.pcMappings = [])
    (hfaithful : Faithful hc program s) (hprefetch : prefetchInstructions hc s = .ok () t) :
    (searchTranslationItem t.hart.pcMappings t.hart.pc = none ∧
      vmresume hc s = .error .exit t) ∨
    ∃ n, 0 < n ∧ vmresume hc s = interpretUnit program n t := by
  obtain ⟨hlaid, hsourced⟩ := h.cache hempty
  exact resume_unit hlaid hsourced hfaithful hprefetch

end Emulated

/-! ### The boot ROM's first unit -/

/-- The word a fetch has read. -/
def fetchedWord : EStateM.Result Abort Vm Word → Option Word
  | .ok word _ => some word
  | .error .. => none

/-- What `Faithful` asks of the state before a round. -/
def faithfulAt (program : Program) (s : Vm) (n : Nat) (blob : PrefetchBlob) (u : Vm) : Bool :=
  cleanAt s n blob u &&
    (!goesOnAt blob u || fetchedWord (mmuInstructionRead32 blob.nextInstructionToFetch u) ==
      program blob.nextInstructionToFetch)

theorem faithful_of_roundsPass {hc : HostCode} {program : Program} {s : Vm} {rounds : Nat}
    (hpass : roundsPass hc (faithfulAt program s) rounds 0 (initialBlob s.hart.pc) (started s) =
      true) : Faithful hc program s := by
  have hclean : roundsPass hc (cleanAt s) rounds 0 (initialBlob s.hart.pc) (started s) = true :=
    roundsPass_mono (fun _ _ _ h => (Bool.and_eq_true_iff.mp h).1) hpass
  refine ⟨cleanPrefetch_of_roundsPass hclean, ?_, ?_⟩
  · intro n blob u hrounds hcontinues word v hfetch
    have hcheck := (check_of_roundsPass hpass hrounds).1
    rw [faithfulAt, goesOnAt_iff.mpr hcontinues, hfetch, Bool.and_eq_true, Bool.or_eq_true,
      beq_iff_eq] at hcheck
    rcases hcheck.2 with hfalse | hread
    · cases hfalse
    · exact hread.symm
  · rintro ⟨n, blob, u, -, hrounds, hcontinues, hfault⟩
    exact not_fetchFault_of_nextRound (check_of_roundsPass hpass hrounds).2 hcontinues hfault

open AddressSpace (bootProgram bootVm)

/-- The guest program in the boot ROM. -/
def bootGuest : Program := fun pc =>
  if 0x4000 ≤ pc.toNat ∧ pc.toNat % 4 = 0 then bootProgram[(pc.toNat - 0x4000) / 4]? else none

theorem faithful_bootVm : Faithful evenHostCode bootGuest bootVm := by
  have hpass : roundsPass evenHostCode (faithfulAt bootGuest bootVm) 8 0
      (initialBlob bootVm.hart.pc) (started bootVm) = true := by
    decide +kernel
  exact faithful_of_roundsPass hpass

/-- The seven instructions of the first unit, a store, a load and a remainder among them. -/
theorem resume_interprets_loop :
    ∃ t n, prefetchInstructions evenHostCode bootVm = .ok () t ∧
      vmresume evenHostCode bootVm = interpretUnit bootGuest n t ∧
      (finalState (vmresume evenHostCode bootVm)).hart.registers 5 = 2 := by
  have hok : isOk (prefetchInstructions evenHostCode bootVm) = true := by decide +kernel
  have hresumed : isOk (vmresume evenHostCode bootVm) = true := by decide +kernel
  have hremainder : (finalState (vmresume evenHostCode bootVm)).hart.registers 5 = 2 := by
    decide +kernel
  obtain ⟨_, hprefetch⟩ := eq_ok_of_isOk hok
  rcases resume_interprets .start rfl faithful_bootVm hprefetch with ⟨-, hexit⟩ | ⟨n, -, hunit⟩
  · rw [hexit] at hresumed
    cases hresumed
  · exact ⟨_, n, hprefetch, hunit, hremainder⟩

/-! ## Runs of the interpreter -/

/-- The same machine but for the translation cache, which the interpreter has no use for. -/
def SameMachine (s t : Vm) : Prop :=
  t = { s with
    hart := { s.hart with
      pcMappings := t.hart.pcMappings
      translationCache := t.hart.translationCache
      translationCachePtr := t.hart.translationCachePtr
      ghostPrefetches := t.hart.ghostPrefetches } }

/--
A run of the interpreter: it executes the instruction of the program at the pc,
takes the fault of a pc without translation, polls the devices, and may fetch
instructions ahead.
-/
inductive Interpreted (program : Program) (s₀ : Vm) : Vm → Prop
  | start : Interpreted program s₀ s₀
  | cache {s t : Vm} (run : Interpreted program s₀ s) (same : SameMachine s t) :
      Interpreted program s₀ t
  | fetch {s t : Vm} {va word : Word} (run : Interpreted program s₀ s)
      (fetched : mmuInstructionRead32 va s = .ok word t) (reads : program va = some word) :
      Interpreted program s₀ t
  | fault {s : Vm} (run : Interpreted program s₀ s) (fault : FetchFault s s.hart.pc) :
      Interpreted program s₀ (fetchFaulted s s.hart.pc)
  | execute {s t : Vm} {e : Emitted} (run : Interpreted program s₀ s)
      (decoded : decodeAt program s.hart.pc = some e)
      (ran : interpret e s = .ok () t ∨ interpret e s = .error .trap t) : Interpreted program s₀ t
  | pump {s t : Vm} (run : Interpreted program s₀ s)
      (ran : pumpDevicesAndDeliverInterrupts s = .ok () t ∨
        pumpDevicesAndDeliverInterrupts s = .error .trap t) : Interpreted program s₀ t

section Interpreted

variable {hc : HostCode} {program : Program} {s₀ s t : Vm}

theorem sameMachine_commit {e : Emitted} {address : Word} {h' : Hart}
    (hcommit : Committed hc e address s.hart h') : SameMachine s { s with hart := h' } := by
  rw [SameMachine, hcommit.frame]

/-- What a round does after its fetch is done to the cache. -/
theorem sameMachine_effect {e : Emitted} {blob blob' : PrefetchBlob}
    (h : RoundEffect hc e blob s blob' t) : SameMachine s t := by
  cases h with
  | full room kept => rfl
  | added room commit => exact sameMachine_commit commit
  | flushed room first commit =>
      rw [SameMachine, commit.frame]
      rfl

theorem interpreted_rounds (h : Interpreted program s₀ s) (hfaithful : Faithful hc program s)
    {n : Nat} {blob : PrefetchBlob} {u : Vm}
    (hrounds : Rounds hc (initialBlob s.hart.pc) (started s) n blob u) :
    Interpreted program s₀ u := by
  induction hrounds with
  | zero => exact .cache h rfl
  | @succ n blob blob' u t rounds continues round ih =>
      obtain ⟨word, v, e, hround⟩ := round_of_ok round
      have hread := hfaithful.reads n blob u rounds continues word v hround.fetched
      exact .cache (.fetch ih hround.fetched hread) (sameMachine_effect hround.effect)

theorem interpreted_prefetch (h : Interpreted program s₀ s) (hfaithful : Faithful hc program s)
    (ran : prefetchInstructions hc s = .ok () t ∨ prefetchInstructions hc s = .error .trap t) :
    Interpreted program s₀ t := by
  rcases ran with ran | ran
  · obtain ⟨n, blob, u, hrounds, -, rfl⟩ := rounds_of_prefetchInstructions_ok ran
    refine .cache (interpreted_rounds h hfaithful hrounds) ?_
    unfold closed
    split <;> rfl
  · obtain ⟨hfault, rfl⟩ := prefetch_trap_eq hfaithful ran
    exact .fault (interpreted_rounds h hfaithful .zero) hfault

/-- The instructions of a unit are steps of the interpreter. -/
theorem interpreted_unit {n : Nat} (h : Interpreted program s₀ s)
    (ran : interpretUnit program n s = .ok () t ∨ interpretUnit program n s = .error .trap t) :
    Interpreted program s₀ t := by
  induction n generalizing s with
  | zero =>
      rcases ran with ran | ran
      · cases ran
        exact h
      · cases ran
  | succ n ih =>
      cases hdecode : decodeAt program s.hart.pc with
      | none =>
          rw [interpretUnit, bind_apply_ok (get_apply s), hdecode] at ran
          rcases ran with ran | ran <;> cases ran
      | some e =>
          rw [interpretUnit_succ hdecode] at ran
          cases hrun : interpret e s with
          | error a u =>
              rw [bind_apply_error hrun] at ran
              rcases ran with ran | ran
              · cases ran
              · cases ran
                exact .execute h hdecode (.inr hrun)
          | ok _ u =>
              rw [bind_apply_ok hrun] at ran
              have hnext : Interpreted program s₀ u := .execute h hdecode (.inl hrun)
              cases hstop : e.stop with
              | false =>
                  rw [hstop] at ran
                  exact ih hnext ran
              | true =>
                  rw [hstop] at ran
                  rcases ran with ran | ran
                  · cases ran
                    exact hnext
                  · cases ran

/--
The emulator refines the interpreter: every state it reaches from an empty
cache, with the guest memory holding the program wherever it was prefetched, is
reached by interpreting that program one instruction at a time.
-/
theorem emulated_interpreted (h : Emulated hc program s₀ s) (hempty : s₀.hart.pcMappings = []) :
    Interpreted program s₀ s := by
  induction h with
  | start => exact .start
  | pump _ ran ih => exact .pump ih ran
  | @resume s t run faithful ran ih =>
      cases hprefetch : prefetchInstructions hc s with
      | error e u =>
          rw [vmresume_of_prefetch_error hprefetch] at ran
          rcases ran with ran | ran
          · cases ran
          · cases ran
            exact interpreted_prefetch ih faithful (.inr hprefetch)
      | ok _ u =>
          have hu := interpreted_prefetch ih faithful (.inl hprefetch)
          obtain ⟨hlaid, hsourced⟩ := run.cache hempty
          rcases resume_unit hlaid hsourced faithful hprefetch with ⟨-, hexit⟩ | ⟨n, -, hunit⟩
          · rw [hexit] at ran
            rcases ran with ran | ran <;> cases ran
          · rw [hunit] at ran
            exact interpreted_unit hu ran

end Interpreted

/-- The boot ROM's first unit, and a turn of the loop at its end. -/
theorem emulated_interpreted_loop :
    ∃ t u, vmresume evenHostCode bootVm = .ok () t ∧ t.hart.registers 3 = 37 ∧
      t.hart.pc = 0x4018 ∧ vmresume evenHostCode t = .ok () u ∧
      Interpreted bootGuest bootVm u := by
  have hfirst : isOk (vmresume evenHostCode bootVm) = true := by decide +kernel
  have hloaded : (finalState (vmresume evenHostCode bootVm)).hart.registers 3 = 37 := by
    decide +kernel
  have hpc : (finalState (vmresume evenHostCode bootVm)).hart.pc = 0x4018 := by decide +kernel
  have hsecond : isOk (vmresume evenHostCode (finalState (vmresume evenHostCode bootVm))) = true := by
    decide +kernel
  have hpass : roundsPass evenHostCode
      (faithfulAt bootGuest (finalState (vmresume evenHostCode bootVm))) 1 0
      (initialBlob (finalState (vmresume evenHostCode bootVm)).hart.pc)
      (started (finalState (vmresume evenHostCode bootVm))) = true := by
    decide +kernel
  have hfaithful : Faithful evenHostCode bootGuest (finalState (vmresume evenHostCode bootVm)) :=
    faithful_of_roundsPass hpass
  obtain ⟨_, hran⟩ := eq_ok_of_isOk hfirst
  obtain ⟨_, hran'⟩ := eq_ok_of_isOk hsecond
  refine ⟨_, _, hran, hloaded, hpc, hran', ?_⟩
  exact emulated_interpreted
    (.resume (.resume .start faithful_bootVm (.inl hran)) hfaithful (.inl hran')) rfl

end Zelda.Proofs.BinaryTranslation
