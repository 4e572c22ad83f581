import Zelda.Proofs.Callees
import Zelda.Proofs.MappingArray
/-!
# The prefetch loop

What one round of the loop can do, the rounds a prefetch goes through, and
that the capacity of the mapping array bounds their number.
-/

namespace Zelda.Proofs.Prefetch

open Zelda.Vmm
open Zelda.Lib.Effect
open Zelda.Proofs.Frames
open Zelda.Proofs.MappingArray

/-! ## Translators -/

/-- What every translator keeps to: its parameter schema, and stopping exactly at a vmm exit. -/
def WellFormed (e : Emitted) : Prop :=
  e.params.length = e.indicator.nrParams ∧ e.stop = !e.indicator.fallsThrough

def immediateIndicators : List Indicator :=
  [.addi, .slti, .sltiu, .xori, .ori, .andi, .slli, .srli, .srai]

def registerIndicators : List Indicator :=
  [.add, .sub, .sll, .slt, .sltu, .xor, .srl, .sra, .or, .and, .mul, .mulh, .mulhsu, .mulhu, .div,
    .divu, .rem, .remu]

def branchIndicators : List Indicator :=
  [.beq, .bne, .blt, .bge, .bltu, .bgeu]

def loadIndicators : List Indicator :=
  [.lb, .lh, .lw, .lbu, .lhu]

def storeIndicators : List Indicator :=
  [.sb, .sh, .sw]

/-- The blocks without operands. -/
def systemIndicators : List Indicator :=
  [.fence, .fenceI, .ebreak, .ecall, .mret, .sret, .sfenceVma, .wfi]

/-- Which translator a block comes from. -/
inductive Emission (word address : Word) : Emitted → Prop
  | lui : Emission word address (riscvLuiTranslator word address)
  | auipc : Emission word address (riscvAuipcTranslator word address)
  | jal : Emission word address (riscvJalTranslator word address)
  | jalr : Emission word address (riscvJalrTranslator word address)
  | immediate {indicator : Indicator} (mem : indicator ∈ immediateIndicators) (imm : Word)
      (dec : Decoding) : Emission word address (immediateTranslator indicator imm dec)
  | register {indicator : Indicator} (mem : indicator ∈ registerIndicators) (dec : Decoding) :
      Emission word address (registerTranslator indicator dec)
  | branch {indicator : Indicator} (mem : indicator ∈ branchIndicators) :
      Emission word address
        (branchTranslator indicator (instructionDecodingPerType word .B) address)
  | load {indicator : Indicator} (mem : indicator ∈ loadIndicators) (dec : Decoding) :
      Emission word address (loadTranslator indicator dec)
  | store {indicator : Indicator} (mem : indicator ∈ storeIndicators) (dec : Decoding) :
      Emission word address (storeTranslator indicator dec)
  | amo (dec : Decoding) : Emission word address (riscvAmoTranslator dec)
  | system {indicator : Indicator} (mem : indicator ∈ systemIndicators) :
      Emission word address ⟨indicator, [address], !indicator.fallsThrough⟩
  | csr : Emission word address (riscvGenericCsrInstructionsTranslator word)

section Translators

variable {instruction pc : Word} {dec : Decoding} {e : Emitted}

private theorem emission_immediate
    (h : riscvArithmeticImmediateInstructionsTranslationEntry instruction = some e) :
    Emission instruction pc e := by
  unfold riscvArithmeticImmediateInstructionsTranslationEntry at h
  simp only at h
  split at h <;> (try split_ifs at h) <;> obtain rfl := Option.some.inj h <;>
    exact .immediate (by decide) _ _

private theorem emission_class0
    (h : riscvArithmeticInstructionsClass0TranslationEntry dec = some e) :
    Emission instruction pc e := by
  unfold riscvArithmeticInstructionsClass0TranslationEntry funct7Translator at h
  split at h <;> (try split_ifs at h) <;> obtain rfl := Option.some.inj h <;>
    exact .register (by decide) _

private theorem emission_mulDiv :
    Emission instruction pc (riscvMulDivInstructionsTranslationEntry dec) := by
  unfold riscvMulDivInstructionsTranslationEntry
  split <;> exact .register (by decide) _

private theorem emission_arithmetic
    (h : riscvArithmeticInstructionsTranslationEntry instruction = some e) :
    Emission instruction pc e := by
  unfold riscvArithmeticInstructionsTranslationEntry at h
  simp only at h
  split_ifs at h
  · exact emission_class0 h
  · obtain rfl := Option.some.inj h
    exact emission_mulDiv

private theorem emission_branch
    (h : riscvBranchInstructionsTranslationEntry instruction pc = some e) :
    Emission instruction pc e := by
  unfold riscvBranchInstructionsTranslationEntry at h
  simp only at h
  split at h <;> first | cases h; exact .branch (by decide) | cases h

private theorem emission_load
    (h : riscvMemoryLoadInstructionsTranslationEntry instruction = some e) :
    Emission instruction pc e := by
  unfold riscvMemoryLoadInstructionsTranslationEntry at h
  simp only at h
  split at h <;> first | cases h; exact .load (by decide) _ | cases h

private theorem emission_store
    (h : riscvMemoryStoreInstructionsTranslationEntry instruction = some e) :
    Emission instruction pc e := by
  unfold riscvMemoryStoreInstructionsTranslationEntry at h
  simp only at h
  split at h <;> first | cases h; exact .store (by decide) _ | cases h

private theorem emission_amo
    (h : riscvAmoInstructionsTranslationEntry instruction = some e) :
    Emission instruction pc e := by
  unfold riscvAmoInstructionsTranslationEntry at h
  simp only at h
  split_ifs at h
  cases h
  exact .amo _

private theorem emission_fence
    (h : riscvFenceInstructionsTranslationEntry instruction pc = some e) :
    Emission instruction pc e := by
  unfold riscvFenceInstructionsTranslationEntry at h
  simp only at h
  split at h <;> first | cases h; exact .system (by decide) | cases h

private theorem emission_supervisor
    (h : riscvSupervisorLevelInstructionsTranslationEntry instruction pc = some e) :
    Emission instruction pc e := by
  unfold riscvSupervisorLevelInstructionsTranslationEntry riscvFunct3000Translator at h
  simp only at h
  split_ifs at h <;> cases h <;> first | exact .system (by decide) | exact .csr

private theorem of_ite {α : Type} {c : Prop} [Decidable c] {a b : Option α} {x : α}
    (h : (if c then a else b) = some x) : a = some x ∨ b = some x := by
  by_cases hc : c
  · rw [if_pos hc] at h
    exact .inl h
  · rw [if_neg hc] at h
    exact .inr h

/-- Whatever is translated comes from one of the translators. -/
theorem emission_translate (h : Vmm.translate instruction pc = some e) :
    Emission instruction pc e := by
  unfold Vmm.translate at h
  rcases of_ite h with h | h
  · obtain rfl := Option.some.inj h
    exact .lui
  rcases of_ite h with h | h
  · obtain rfl := Option.some.inj h
    exact .auipc
  rcases of_ite h with h | h
  · obtain rfl := Option.some.inj h
    exact .jal
  rcases of_ite h with h | h
  · obtain rfl := Option.some.inj h
    exact .jalr
  rcases of_ite h with h | h
  · exact emission_immediate h
  rcases of_ite h with h | h
  · exact emission_store h
  rcases of_ite h with h | h
  · exact emission_load h
  rcases of_ite h with h | h
  · exact emission_branch h
  rcases of_ite h with h | h
  · exact emission_arithmetic h
  rcases of_ite h with h | h
  · exact emission_fence h
  rcases of_ite h with h | h
  · exact emission_supervisor h
  rcases of_ite h with h | h
  · exact emission_amo h
  cases h

theorem wellFormed_translate (h : Vmm.translate instruction pc = some e) : WellFormed e := by
  -- within a family every block has the same schema
  have hfamily : ∀ {indicators : List Indicator} {stop : Bool},
      (∀ i ∈ indicators, i.nrParams = 3 ∧ i.fallsThrough = !stop) →
      ∀ {i : Indicator} {params : List Word}, i ∈ indicators → params.length = 3 →
      WellFormed ⟨i, params, stop⟩ := by
    intro indicators stop hall i params hmem hlength
    obtain ⟨hparams, hfalls⟩ := hall i hmem
    exact ⟨hlength.trans hparams.symm, by rw [hfalls, Bool.not_not]⟩
  cases emission_translate h with
  | lui | auipc | jal | jalr | csr | amo => exact ⟨rfl, rfl⟩
  | immediate mem imm dec => exact hfamily (by decide) mem rfl
  | register mem dec => exact hfamily (by decide) mem rfl
  | branch mem => exact hfamily (by decide) mem rfl
  | load mem dec => exact hfamily (by decide) mem rfl
  | store mem dec => exact hfamily (by decide) mem rfl
  | system mem =>
      have hparams : ∀ i ∈ systemIndicators, i.nrParams = 1 := by decide
      exact ⟨(hparams _ mem).symm, rfl⟩

end Translators

/-! ## One round -/

/-- `COMMIT_TRANSLATION` succeeded and left `h'`. -/
def Committed (hc : HostCode) (e : Emitted) (address : Word) (h h' : Hart) : Prop :=
  ∃ added item, h.addTranslationItem hc address e.indicator = some added ∧
    searchTranslationItem added.pcMappings address = some item ∧
    h' = added.writeParams (item.tcOffset + hc.blockSize e.indicator - 4 * e.params.length) e.params

/-- Committing changes the hart only and never traps. -/
theorem commitTranslation_frame (hc : HostCode) (e : Emitted) (address : Word) (s : Vm) :
    Wp (commitTranslation hc address e.indicator e.params)
      (fun _ t => ∃ h', Committed hc e address s.hart h' ∧ t = { s with hart := h' })
      (NoTrap s) s := by
  unfold commitTranslation
  simp only [wp_bind, wp_get]
  cases hadd : s.hart.addTranslationItem hc address e.indicator with
  | none => exact ⟨by decide, rfl⟩
  | some added =>
      simp only
      cases hsearch : searchTranslationItem added.pcMappings address with
      | none => exact ⟨by decide, rfl⟩
      | some item =>
          simp only [wp_bind, assert]
          split
          · exact ⟨_, ⟨added, item, hadd, hsearch, rfl⟩, rfl⟩
          · exact ⟨by decide, rfl⟩

/-- Whether the block of `indicator` still fits. -/
def HasRoom (hc : HostCode) (h : Hart) (indicator : Indicator) : Prop :=
  ¬h.unoccupiedCacheSize hc < hc.blockSize indicator

/-- The blob after a block has been emitted. -/
def advance (e : Emitted) (blob : PrefetchBlob) : PrefetchBlob :=
  if e.stop then { blob with isToStop := true, isFlushable := false }
  else
    { blob with
      nextInstructionToFetch := blob.nextInstructionToFetch + 4, isFlushable := false }

/-- What a round did, once its instruction was fetched in `s` and translated to `e`. -/
inductive RoundEffect (hc : HostCode) (e : Emitted) (blob : PrefetchBlob) (s : Vm) :
    PrefetchBlob → Vm → Prop
  | full (room : ¬HasRoom hc s.hart e.indicator) (kept : blob.isFlushable = false) :
      RoundEffect hc e blob s { blob with isToStop := true } s
  | added {h' : Hart} (room : HasRoom hc s.hart e.indicator)
      (commit : Committed hc e blob.nextInstructionToFetch s.hart h') :
      RoundEffect hc e blob s (advance e blob) { s with hart := h' }
  | flushed {h' : Hart} (room : ¬HasRoom hc s.hart e.indicator) (first : blob.isFlushable = true)
      (commit : Committed hc e blob.nextInstructionToFetch s.hart.flushTranslationCache h') :
      RoundEffect hc e blob s (advance e blob) { s with hart := h' }

/-- `PRECHECK_TRANSLATION_CACHE` keeps, flushes or stops. -/
theorem precheckTranslationCache_frame (hc : HostCode) (indicator : Indicator)
    (blob : PrefetchBlob) (s : Vm) :
    Wp (precheckTranslationCache hc indicator blob)
      (fun r t =>
        (HasRoom hc s.hart indicator ∧ r = (true, { blob with isFlushable := false }) ∧ t = s) ∨
        (¬HasRoom hc s.hart indicator ∧ blob.isFlushable = true ∧
          r = (true, { blob with isFlushable := false }) ∧
          t = { s with hart := s.hart.flushTranslationCache }) ∨
        (¬HasRoom hc s.hart indicator ∧ blob.isFlushable = false ∧
          r = (false, { blob with isToStop := true }) ∧ t = s))
      (fun _ _ => False) s := by
  unfold precheckTranslationCache
  simp only [wp_bind, wp_get]
  split
  · rename_i hfull
    split
    · rename_i hfirst
      exact .inr (.inl ⟨not_not.mpr hfull, hfirst, rfl, rfl⟩)
    · rename_i hfirst
      exact .inr (.inr ⟨not_not.mpr hfull, by simpa using hfirst, rfl, rfl⟩)
  · rename_i hroom
    exact .inl ⟨hroom, rfl, rfl⟩

/-- A translator past its precheck. -/
private theorem commit_advance (hc : HostCode) (e : Emitted) (blob : PrefetchBlob) (s : Vm) :
    Wp (do
        commitTranslation hc blob.nextInstructionToFetch e.indicator e.params
        if e.stop then pure { blob with isToStop := true, isFlushable := false }
        else
          pure
            { blob with
              nextInstructionToFetch := blob.nextInstructionToFetch + 4, isFlushable := false })
      (fun blob' t => ∃ h', Committed hc e blob.nextInstructionToFetch s.hart h' ∧
        t = { s with hart := h' } ∧ blob' = advance e blob)
      (NoTrap s) s := by
  rw [wp_bind]
  refine wp_mono (commitTranslation_frame hc e _ s) ?_ fun _ _ h => h
  rintro _ t ⟨h', hcommit, rfl⟩
  unfold advance
  split <;> exact ⟨h', hcommit, rfl, rfl⟩

theorem emit_frame (hc : HostCode) (e : Emitted) (blob : PrefetchBlob) (s : Vm) :
    Wp (emit hc e blob) (fun blob' t => RoundEffect hc e blob s blob' t)
      (fun e _ => e ≠ .trap) s := by
  unfold emit
  rw [wp_bind]
  refine wp_mono (precheckTranslationCache_frame hc e.indicator blob s) ?_ fun _ _ h => h.elim
  rintro _ t (⟨hroom, rfl, rfl⟩ | ⟨hfull, hfirst, rfl, rfl⟩ | ⟨hfull, hfirst, rfl, rfl⟩)
  · refine wp_mono (commit_advance hc e blob t) ?_ fun _ _ h => h.1
    rintro blob' u ⟨h', hcommit, rfl, rfl⟩
    exact .added hroom hcommit
  · refine wp_mono (commit_advance hc e blob _) ?_ fun _ _ h => h.1
    rintro blob' u ⟨h', hcommit, rfl, rfl⟩
    exact .flushed hfull hfirst hcommit
  · exact .full hfull hfirst

/-- Everything `prefetch_one_instruction` can do. -/
theorem prefetchOneInstruction_frame (hc : HostCode) (blob : PrefetchBlob) (s : Vm) :
    Wp (prefetchOneInstruction hc blob)
      (fun blob' t => ∃ u e, FetchFrame s u ∧ WellFormed e ∧ RoundEffect hc e blob u blob' t)
      (fun e t => e = .trap → FetchFault s blob.nextInstructionToFetch ∧
        t = fetchFaulted s blob.nextInstructionToFetch) s := by
  unfold prefetchOneInstruction
  rw [wp_bind]
  refine wp_mono (mmuInstructionRead32_frame _ s) ?_ fun _ _ h => h
  intro instruction u hu
  cases htranslate : Vmm.translate instruction blob.nextInstructionToFetch with
  | none => exact fun h => nomatch h
  | some e =>
      refine wp_mono (emit_frame hc e blob u) ?_ fun _ _ h he => absurd he h
      intro blob' t heffect
      exact ⟨u, e, hu, wellFormed_translate htranslate, heffect⟩

/-! ## What the rounds leave alone -/

/-- A prefetch touches the instruction TLB, the translation cache and what a fetch touches. -/
def PrefetchFrame (s t : Vm) : Prop :=
  t = { s with
    hart := { s.hart with
      itlb := t.hart.itlb
      pcMappings := t.hart.pcMappings
      translationCache := t.hart.translationCache
      translationCachePtr := t.hart.translationCachePtr }
    plic := t.plic
    uart := t.uart }

theorem PrefetchFrame.refl (s : Vm) : PrefetchFrame s s := rfl

theorem PrefetchFrame.trans {s t u : Vm} (h : PrefetchFrame s t) (h' : PrefetchFrame t u) :
    PrefetchFrame s u := by
  rw [PrefetchFrame] at h h'
  rw [PrefetchFrame, h', h]

theorem writeParams_frame (h : Hart) (offset : Nat) (params : List Word) :
    h.writeParams offset params =
      { h with translationCache := (h.writeParams offset params).translationCache } := by
  induction params generalizing h offset with
  | nil => rfl
  | cons word rest ih =>
      unfold Hart.writeParams
      rw [ih]

/-- What `add_translation_item` does when it succeeds. -/
theorem addTranslationItem_eq {hc : HostCode} {h h' : Hart} {address : Word}
    {indicator : Indicator} (hadd : h.addTranslationItem hc address indicator = some h') :
    HasRoom hc h indicator ∧ h.pcMappings.length < MAX_INSTRUCTIONS_TOTRANSLATE ∧
      h' =
        { h.copyChunk (.block address indicator h.ghostPrefetches) (hc.blockSize indicator)
            (4 * indicator.nrParams) with
          pcMappings := insertMappingItem h.pcMappings
            { guestPc := address
              tcOffset := h.translationCachePtr
              ghostTag := h.addressSpaceTag } } := by
  unfold Hart.addTranslationItem at hadd
  split_ifs at hadd with hroom hcount
  exact ⟨hroom, Nat.lt_of_not_le hcount, (Option.some.inj hadd).symm⟩

theorem Committed.frame {hc : HostCode} {e : Emitted} {address : Word} {h h' : Hart}
    (hcommit : Committed hc e address h h') :
    h' = { h with
      pcMappings := h'.pcMappings
      translationCache := h'.translationCache
      translationCachePtr := h'.translationCachePtr } := by
  obtain ⟨added, item, hadd, -, rfl⟩ := hcommit
  obtain ⟨-, -, rfl⟩ := addTranslationItem_eq hadd
  rw [writeParams_frame]
  rfl

theorem Committed.length {hc : HostCode} {e : Emitted} {address : Word} {h h' : Hart}
    (hcommit : Committed hc e address h h') :
    h'.pcMappings.length = h.pcMappings.length + 1 ∧
      h'.pcMappings.length ≤ MAX_INSTRUCTIONS_TOTRANSLATE := by
  obtain ⟨added, item, hadd, -, rfl⟩ := hcommit
  obtain ⟨-, hcount, rfl⟩ := addTranslationItem_eq hadd
  rw [writeParams_frame]
  exact ⟨length_insertMappingItem _ _, (length_insertMappingItem _ _).trans_le hcount⟩

theorem FetchFrame.prefetchFrame {s t : Vm} (h : FetchFrame s t) : PrefetchFrame s t := by
  rw [FetchFrame] at h
  rw [PrefetchFrame, h]

theorem prefetchFrame_commit {hc : HostCode} {e : Emitted} {address : Word} {s : Vm} {h' : Hart}
    (hcommit : Committed hc e address s.hart h') : PrefetchFrame s { s with hart := h' } := by
  rw [PrefetchFrame, hcommit.frame]

theorem prefetchFrame_flush (s : Vm) :
    PrefetchFrame s { s with hart := s.hart.flushTranslationCache } := rfl

theorem RoundEffect.frame {hc : HostCode} {e : Emitted} {blob blob' : PrefetchBlob} {s t : Vm}
    (h : RoundEffect hc e blob s blob' t) : PrefetchFrame s t := by
  cases h with
  | full => exact .refl s
  | added room commit => exact prefetchFrame_commit commit
  | flushed room first commit =>
      exact (prefetchFrame_flush s).trans (prefetchFrame_commit (s := { s with hart := _ }) commit)

/-! ## The rounds of a loop -/

/-- The loop takes another round. -/
structure Continues (blob : PrefetchBlob) (s : Vm) : Prop where
  goesOn : blob.isToStop = false
  missed : searchTranslationItem s.hart.pcMappings blob.nextInstructionToFetch = none

/-- The loop comes from `blob₀` and `s₀` to `blob` and `s` in this many rounds. -/
inductive Rounds (hc : HostCode) (blob₀ : PrefetchBlob) (s₀ : Vm) :
    Nat → PrefetchBlob → Vm → Prop
  | zero : Rounds hc blob₀ s₀ 0 blob₀ s₀
  | succ {n : Nat} {blob blob' : PrefetchBlob} {s t : Vm} (rounds : Rounds hc blob₀ s₀ n blob s)
      (continues : Continues blob s) (round : prefetchOneInstruction hc blob s = .ok blob' t) :
      Rounds hc blob₀ s₀ (n + 1) blob' t

section Rounds

variable {hc : HostCode} {blob₀ blob blob' : PrefetchBlob} {s₀ s t u : Vm} {n rounds : Nat}

theorem round_effect (h : prefetchOneInstruction hc blob s = .ok blob' t) :
    ∃ u e, FetchFrame s u ∧ WellFormed e ∧ RoundEffect hc e blob u blob' t :=
  (wp_of_ok h).mp (prefetchOneInstruction_frame hc blob s)

theorem Rounds.frame (h : Rounds hc blob₀ s₀ n blob s) : PrefetchFrame s₀ s := by
  induction h with
  | zero => exact .refl s₀
  | succ _ _ round ih =>
      obtain ⟨u, e, hfetch, -, heffect⟩ := round_effect round
      exact ih.trans ((FetchFrame.prefetchFrame hfetch).trans heffect.frame)

theorem Rounds.prepend {blob₁ : PrefetchBlob} {s₁ : Vm} (hcontinues : Continues blob₀ s₀)
    (hround : prefetchOneInstruction hc blob₀ s₀ = .ok blob₁ s₁)
    (h : Rounds hc blob₁ s₁ n blob s) : Rounds hc blob₀ s₀ (n + 1) blob s := by
  induction h with
  | zero => exact .succ .zero hcontinues hround
  | succ _ continues round ih => exact .succ ih continues round

theorem prefetchLoop_succ (hcontinues : Continues blob s) :
    prefetchLoop hc (rounds + 1) blob s =
      match prefetchOneInstruction hc blob s with
      | .ok blob' t => if blob'.isToStop then .ok blob' t else prefetchLoop hc rounds blob' t
      | .error e t => .error e t := by
  rw [prefetchLoop, bind_apply_ok (get_apply s)]
  simp only [hcontinues.missed, Option.isSome_none, Bool.false_eq_true, if_false]
  rw [bind_apply]
  cases prefetchOneInstruction hc blob s with
  | error e t => rfl
  | ok blob' t =>
      simp only
      split <;> rfl

theorem prefetchLoop_of_ended (h : ¬Continues blob s) (hgoes : blob.isToStop = false) :
    prefetchLoop hc rounds blob s = .ok blob s := by
  cases rounds with
  | zero => rfl
  | succ rounds =>
      have hfound : (searchTranslationItem s.hart.pcMappings
          blob.nextInstructionToFetch).isSome = true := by
        rw [Option.isSome_iff_ne_none]
        exact fun hnone => h ⟨hgoes, hnone⟩
      rw [prefetchLoop, bind_apply_ok (get_apply s)]
      simp only [hfound, if_true]
      rfl

/-- A loop that returns went through rounds, and stopped because it had to or ran out of them. -/
theorem rounds_of_prefetchLoop_ok (hgoes : blob.isToStop = false)
    (h : prefetchLoop hc rounds blob s = .ok blob' t) :
    ∃ n, Rounds hc blob s n blob' t ∧ (n = rounds ∨ ¬Continues blob' t) := by
  induction rounds generalizing blob s with
  | zero =>
      cases h
      exact ⟨0, .zero, .inl rfl⟩
  | succ rounds ih =>
      by_cases hcontinues : Continues blob s
      · rw [prefetchLoop_succ hcontinues] at h
        cases hround : prefetchOneInstruction hc blob s with
        | error e u =>
            rw [hround] at h
            cases h
        | ok blob₁ s₁ =>
            simp only [hround] at h
            split at h
            · rename_i hstop
              cases h
              refine ⟨1, .succ .zero hcontinues hround, .inr fun hc' => ?_⟩
              rw [hc'.goesOn] at hstop
              cases hstop
            · rename_i hstop
              obtain ⟨n, hrounds, hend⟩ := ih (by simpa using hstop) h
              refine ⟨n + 1, hrounds.prepend hcontinues hround, ?_⟩
              rcases hend with rfl | hend
              · exact .inl rfl
              · exact .inr hend
      · rw [prefetchLoop_of_ended hcontinues hgoes] at h
        cases h
        exact ⟨0, .zero, .inr hcontinues⟩

/-- A loop that fails met a failing round after some others. -/
theorem rounds_of_prefetchLoop_error {e : Abort} (hgoes : blob.isToStop = false)
    (h : prefetchLoop hc rounds blob s = .error e t) :
    ∃ n blob' u, Rounds hc blob s n blob' u ∧ Continues blob' u ∧
      prefetchOneInstruction hc blob' u = .error e t := by
  induction rounds generalizing blob s with
  | zero => cases h
  | succ rounds ih =>
      by_cases hcontinues : Continues blob s
      · rw [prefetchLoop_succ hcontinues] at h
        cases hround : prefetchOneInstruction hc blob s with
        | error e' u =>
            simp only [hround] at h
            cases h
            exact ⟨0, blob, s, .zero, hcontinues, hround⟩
        | ok blob₁ s₁ =>
            simp only [hround] at h
            split at h
            · cases h
            · rename_i hstop
              obtain ⟨n, blob', u, hrounds, hrest⟩ := ih (by simpa using hstop) h
              exact ⟨n + 1, blob', u, hrounds.prepend hcontinues hround, hrest⟩
      · rw [prefetchLoop_of_ended hcontinues hgoes] at h
        cases h

/-- The loop after some of its rounds. -/
theorem prefetchLoop_of_rounds (h : Rounds hc blob₀ s₀ n blob s) (hcontinues : Continues blob s)
    (k : Nat) : prefetchLoop hc (n + k) blob₀ s₀ = prefetchLoop hc k blob s := by
  induction h generalizing k with
  | zero => rw [Nat.zero_add]
  | @succ n blob blob' s t _ continues round ih =>
      have hstop : ¬blob'.isToStop = true := by
        rw [hcontinues.goesOn]
        decide
      rw [Nat.add_assoc, Nat.add_comm 1 k, ih continues, prefetchLoop_succ continues, round]
      simp only [if_neg hstop]

theorem prefetchLoop_of_fault (h : Rounds hc blob₀ s₀ n blob s) (hcontinues : Continues blob s)
    (hfault : FetchFault s blob.nextInstructionToFetch) (hn : n < rounds) :
    prefetchLoop hc rounds blob₀ s₀ =
      .error .trap (fetchFaulted s blob.nextInstructionToFetch) := by
  obtain ⟨k, rfl⟩ : ∃ k, rounds = n + (k + 1) := ⟨rounds - n - 1, by omega⟩
  have hround : prefetchOneInstruction hc blob s =
      .error .trap (fetchFaulted s blob.nextInstructionToFetch) := by
    unfold prefetchOneInstruction
    rw [bind_apply_error (mmuInstructionRead32_of_fault hfault)]
  rw [prefetchLoop_of_rounds h hcontinues, prefetchLoop_succ hcontinues, hround]

end Rounds

/-! ## How many rounds -/

/-- The loop's own progress, as long as it goes on. -/
structure Progress (pc : Word) (n : Nat) (blob : PrefetchBlob) (h : Hart) : Prop where
  next : blob.nextInstructionToFetch = pc + 4 * BitVec.ofNat 32 n
  counted : n ≤ h.pcMappings.length ∨ n = 0
  bounded : h.pcMappings.length ≤ MAX_INSTRUCTIONS_TOTRANSLATE ∨ n = 0
  flushable : blob.isFlushable = decide (n = 0)

theorem progress_of_rounds {hc : HostCode} {pc : Word} {s₀ s : Vm} {n : Nat}
    {blob : PrefetchBlob} (h : Rounds hc (initialBlob pc) s₀ n blob s)
    (hgoes : blob.isToStop = false) : Progress pc n blob s.hart := by
  induction h with
  | zero => exact ⟨by simp [initialBlob], .inr rfl, .inr rfl, rfl⟩
  | @succ n blob blob' s t _ continues round ih =>
      obtain ⟨hnext, hcounted, hbounded, hflushable⟩ := ih continues.goesOn
      obtain ⟨u, e, hfetch, -, heffect⟩ := round_effect round
      have hsame : u.hart.pcMappings = s.hart.pcMappings := by rw [hfetch]
      have hadvance : ∀ b : PrefetchBlob, (advance e b).isToStop = false →
          advance e b = { b with
            nextInstructionToFetch := b.nextInstructionToFetch + 4, isFlushable := false } := by
        intro b hb
        unfold advance at hb ⊢
        split at hb
        · cases hb
        · rename_i hstop
          rw [if_neg hstop]
      have hstep : blob.nextInstructionToFetch + 4 = pc + 4 * BitVec.ofNat 32 (n + 1) := by
        rw [hnext, BitVec.ofNat_add, BitVec.mul_add, BitVec.add_assoc]
        rfl
      cases heffect with
      | full => cases hgoes
      | added room commit =>
          obtain ⟨hlen, hmax⟩ := commit.length
          rw [hadvance blob hgoes]
          refine ⟨hstep, .inl ?_, .inl hmax, by simp⟩
          simp only [hlen, hsame]
          omega
      | flushed room first commit =>
          obtain ⟨hlen, hmax⟩ := commit.length
          rw [hadvance blob hgoes]
          refine ⟨hstep, .inl ?_, .inl hmax, by simp⟩
          rw [hflushable] at first
          have hzero : n = 0 := by simpa using first
          simp only [hlen, hzero]
          omega

theorem rounds_lt {hc : HostCode} {pc : Word} {s₀ s : Vm} {n : Nat} {blob : PrefetchBlob}
    (h : Rounds hc (initialBlob pc) s₀ n blob s) : n < prefetchRounds := by
  cases h with
  | zero => decide
  | succ rounds continues round =>
      have hprogress := progress_of_rounds rounds continues.goesOn
      have hcounted := hprogress.counted
      have hbounded := hprogress.bounded
      unfold prefetchRounds
      omega

/-- The loop takes another round, as it decides it. -/
def goesOnAt (blob : PrefetchBlob) (s : Vm) : Bool :=
  !blob.isToStop && (searchTranslationItem s.hart.pcMappings blob.nextInstructionToFetch).isNone

theorem goesOnAt_iff {blob : PrefetchBlob} {s : Vm} : goesOnAt blob s = true ↔ Continues blob s := by
  unfold goesOnAt
  rw [Bool.and_eq_true, Bool.not_eq_true', Option.isNone_iff_eq_none]
  exact ⟨fun h => ⟨h.1, h.2⟩, fun h => ⟨h.goesOn, h.missed⟩⟩

/--
A check of every state between the rounds of a loop, the `n`-th from here on,
in at most so many rounds, none of which may fail.
-/
def roundsPass (hc : HostCode) (check : Nat → PrefetchBlob → Vm → Bool) :
    Nat → Nat → PrefetchBlob → Vm → Bool
  | 0, _, _, _ => false
  | rounds + 1, n, blob, s =>
      check n blob s &&
        if goesOnAt blob s then
          match prefetchOneInstruction hc blob s with
          | .ok blob' t => roundsPass hc check rounds (n + 1) blob' t
          | .error .. => false
        else
          true

/-- The next round does not fail. -/
def NextRound (hc : HostCode) (blob : PrefetchBlob) (s : Vm) : Prop :=
  Continues blob s → ∃ blob' t, prefetchOneInstruction hc blob s = .ok blob' t

section RoundsPass

variable {hc : HostCode} {check : Nat → PrefetchBlob → Vm → Bool} {blob₀ blob : PrefetchBlob}
variable {s₀ s : Vm} {n rounds : Nat}

theorem roundsPass_succ {blob' : PrefetchBlob} {t : Vm} (hcontinues : Continues blob s)
    (hround : prefetchOneInstruction hc blob s = .ok blob' t)
    (hpass : roundsPass hc check rounds n blob s = true) :
    ∃ left, roundsPass hc check left (n + 1) blob' t = true := by
  cases rounds with
  | zero => cases hpass
  | succ rounds =>
      rw [roundsPass, Bool.and_eq_true, if_pos (goesOnAt_iff.mpr hcontinues), hround] at hpass
      exact ⟨rounds, hpass.2⟩

theorem check_of_roundsPass_self (hpass : roundsPass hc check rounds n blob s = true) :
    check n blob s = true ∧ NextRound hc blob s := by
  cases rounds with
  | zero => cases hpass
  | succ rounds =>
      rw [roundsPass, Bool.and_eq_true] at hpass
      refine ⟨hpass.1, fun hcontinues => ?_⟩
      have hrest := hpass.2
      rw [if_pos (goesOnAt_iff.mpr hcontinues)] at hrest
      cases hround : prefetchOneInstruction hc blob s with
      | ok blob' t => exact ⟨blob', t, rfl⟩
      | error e t =>
          rw [hround] at hrest
          cases hrest

/-- A loop whose rounds pass a check meets it in every state between its rounds. -/
theorem check_of_roundsPass (hpass : roundsPass hc check rounds 0 blob₀ s₀ = true)
    (hrounds : Rounds hc blob₀ s₀ n blob s) : check n blob s = true ∧ NextRound hc blob s := by
  suffices hleft : ∃ left, roundsPass hc check left n blob s = true by
    obtain ⟨left, hleft⟩ := hleft
    exact check_of_roundsPass_self hleft
  induction hrounds with
  | zero => exact ⟨rounds, hpass⟩
  | succ _ continues round ih =>
      obtain ⟨left, hleft⟩ := ih
      exact roundsPass_succ continues round hleft

/-- A stronger check. -/
theorem roundsPass_mono {check' : Nat → PrefetchBlob → Vm → Bool}
    (himplies : ∀ n blob s, check n blob s = true → check' n blob s = true)
    (hpass : roundsPass hc check rounds n blob s = true) :
    roundsPass hc check' rounds n blob s = true := by
  induction rounds generalizing n blob s with
  | zero => cases hpass
  | succ rounds ih =>
      rw [roundsPass, Bool.and_eq_true] at hpass ⊢
      refine ⟨himplies n blob s hpass.1, ?_⟩
      have hrest := hpass.2
      split at hrest
      case isFalse hended => rw [if_neg hended]
      case isTrue hgoes =>
        rw [if_pos hgoes]
        cases hround : prefetchOneInstruction hc blob s with
        | error e t =>
            rw [hround] at hrest
            cases hrest
        | ok blob' t =>
            rw [hround] at hrest
            exact ih hrest

theorem not_fetchFault_of_nextRound (hnext : NextRound hc blob s) (hcontinues : Continues blob s) :
    ¬FetchFault s blob.nextInstructionToFetch := by
  intro hfault
  obtain ⟨blob', t, hround⟩ := hnext hcontinues
  unfold prefetchOneInstruction at hround
  rw [bind_apply_error (mmuInstructionRead32_of_fault hfault)] at hround
  cases hround

end RoundsPass

/-! ## A whole prefetch -/

/-- The machine as the loop of a prefetch finds it. -/
def started (s : Vm) : Vm :=
  { s with hart := { s.hart with ghostPrefetches := s.hart.ghostPrefetches + 1 } }

/-- The machine after the loop, which began with `oldTransPtr`. -/
def closed (hc : HostCode) (oldTransPtr : Nat) (s : Vm) : Vm :=
  if oldTransPtr ≠ s.hart.translationCachePtr then { s with hart := s.hart.appendJumper hc } else s

theorem prefetchInstructions_apply (hc : HostCode) (s : Vm) :
    prefetchInstructions hc s =
      match prefetchLoop hc prefetchRounds (initialBlob s.hart.pc) (started s) with
      | .ok _ t => .ok () (closed hc s.hart.translationCachePtr t)
      | .error e t => .error e t := by
  have hstart : modifyHart (fun h => { h with ghostPrefetches := h.ghostPrefetches + 1 }) s =
      .ok () (started s) := rfl
  have hpc : (started s).hart.pc = s.hart.pc := rfl
  have hptr : (started s).hart.translationCachePtr = s.hart.translationCachePtr := rfl
  unfold prefetchInstructions
  rw [bind_apply_ok hstart, bind_apply_ok (get_apply _), bind_apply]
  simp only [hpc, hptr]
  cases prefetchLoop hc prefetchRounds (initialBlob s.hart.pc) (started s) with
  | error e t => rfl
  | ok blob t =>
      simp only
      rw [bind_apply_ok (get_apply t)]
      unfold closed
      by_cases hmoved : s.hart.translationCachePtr ≠ t.hart.translationCachePtr
      · rw [if_pos hmoved, if_pos hmoved]
        rfl
      · rw [if_neg hmoved, if_neg hmoved]
        rfl

/-- A prefetch that returns went through rounds until the loop had to end. -/
theorem rounds_of_prefetchInstructions_ok {hc : HostCode} {s t : Vm}
    (h : prefetchInstructions hc s = .ok () t) :
    ∃ n blob u, Rounds hc (initialBlob s.hart.pc) (started s) n blob u ∧ ¬Continues blob u ∧
      t = closed hc s.hart.translationCachePtr u := by
  rw [prefetchInstructions_apply] at h
  cases hloop : prefetchLoop hc prefetchRounds (initialBlob s.hart.pc) (started s) with
  | error e u =>
      rw [hloop] at h
      cases h
  | ok blob u =>
      simp only [hloop] at h
      cases h
      obtain ⟨n, hrounds, hend⟩ := rounds_of_prefetchLoop_ok rfl hloop
      have hlt := rounds_lt hrounds
      exact ⟨n, blob, u, hrounds, hend.resolve_left hlt.ne, rfl⟩

/-- A prefetch that fails met a failing round after some others. -/
theorem rounds_of_prefetchInstructions_error {hc : HostCode} {s t : Vm} {e : Abort}
    (h : prefetchInstructions hc s = .error e t) :
    ∃ n blob u, Rounds hc (initialBlob s.hart.pc) (started s) n blob u ∧ Continues blob u ∧
      prefetchOneInstruction hc blob u = .error e t := by
  rw [prefetchInstructions_apply] at h
  cases hloop : prefetchLoop hc prefetchRounds (initialBlob s.hart.pc) (started s) with
  | ok blob u =>
      rw [hloop] at h
      cases h
  | error e u =>
      simp only [hloop] at h
      cases h
      exact rounds_of_prefetchLoop_error rfl hloop

/-- A prefetch that traps met a failed fetch after some rounds. -/
theorem rounds_of_prefetchInstructions_trap {hc : HostCode} {s t : Vm}
    (h : prefetchInstructions hc s = .error .trap t) :
    ∃ n blob u, Rounds hc (initialBlob s.hart.pc) (started s) n blob u ∧ Continues blob u ∧
      FetchFault u blob.nextInstructionToFetch ∧
      t = fetchFaulted u blob.nextInstructionToFetch := by
  obtain ⟨n, blob, u, hrounds, hcontinues, hround⟩ := rounds_of_prefetchInstructions_error h
  have hfault := (wp_of_error hround).mp (prefetchOneInstruction_frame hc blob u) rfl
  exact ⟨n, blob, u, hrounds, hcontinues, hfault⟩

theorem prefetchInstructions_of_fault {hc : HostCode} {s u : Vm} {n : Nat} {blob : PrefetchBlob}
    (hrounds : Rounds hc (initialBlob s.hart.pc) (started s) n blob u)
    (hcontinues : Continues blob u) (hfault : FetchFault u blob.nextInstructionToFetch) :
    prefetchInstructions hc s = .error .trap (fetchFaulted u blob.nextInstructionToFetch) := by
  rw [prefetchInstructions_apply,
    prefetchLoop_of_fault hrounds hcontinues hfault (rounds_lt hrounds)]

end Zelda.Proofs.Prefetch
