import Zelda.Proofs.CsrAccess
import Zelda.Vmm.Init
/-!
# The virtual clock

`mtime` is driven by translation units, by the skips of an idle hart and by
nothing else.  It never goes back, a skip lands on the first deadline, and a
guest that reads its halves one by one can tell when they belong together.
-/

namespace Zelda.Proofs.VirtualClock

open Zelda.Vmm
open Zelda.Lib.Effect
open Zelda.Proofs.CsrAccess

/-! ## Skips -/

section Skip

variable (c : Clint)

theorem earliest_le (n : Nat) : ∀ id, id < n → c.earliest n ≤ c.mtimecmp id := by
  induction n with
  | zero => intro id hid; omega
  | succ n ih =>
      intro id hid
      unfold Clint.earliest
      simp only
      rcases Nat.lt_or_eq_of_le (Nat.le_of_lt_succ hid) with hlt | rfl
      · have hle := ih id hlt
        split
        · rename_i hless
          rw [BitVec.lt_def] at hless
          rw [BitVec.le_def] at hle ⊢
          omega
        · exact hle
      · split
        · exact BitVec.le_refl _
        · rename_i hless
          exact BitVec.not_lt.mp hless

/-- The minimum is a deadline of some hart, or no timer is armed. -/
theorem earliest_mem (n : Nat) :
    c.earliest n = BitVec.allOnes 64 ∨ ∃ id, id < n ∧ c.mtimecmp id = c.earliest n := by
  induction n with
  | zero => exact .inl rfl
  | succ n ih =>
      unfold Clint.earliest
      simp only
      split
      · exact .inr ⟨n, by omega, rfl⟩
      · rcases ih with hnone | ⟨id, hid, heq⟩
        · exact .inl hnone
        · exact .inr ⟨id, by omega, heq⟩

theorem earliest_eq_allOnes_iff (n : Nat) :
    c.earliest n = BitVec.allOnes 64 ↔ ∀ id, id < n → c.mtimecmp id = BitVec.allOnes 64 := by
  constructor
  · intro hnone id hid
    have hle := earliest_le c n id hid
    rw [hnone, BitVec.le_def, BitVec.toNat_allOnes] at hle
    have hlt := (c.mtimecmp id).isLt
    apply BitVec.eq_of_toNat_eq
    rw [BitVec.toNat_allOnes]
    omega
  · intro hall
    rcases earliest_mem c n with hnone | ⟨id, hid, heq⟩
    · exact hnone
    · rw [← heq]
      exact hall id hid

/-- What `clint_skip_to_next_deadline` does to the clock, and what it returns. -/
structure SkipsToDeadline : Prop where
  /-- The new time is the first of all deadlines. -/
  lands : c.skipToNextDeadline.2.mtime ≠ c.mtime →
    (∃ id, id < c.nrHarts ∧ c.mtimecmp id = c.skipToNextDeadline.2.mtime) ∧
      ∀ id, id < c.nrHarts → c.skipToNextDeadline.2.mtime ≤ c.mtimecmp id
  /-- No deadline was passed over. -/
  skipsNone : ∀ id, id < c.nrHarts →
    ¬(c.mtime < c.mtimecmp id ∧ c.mtimecmp id < c.skipToNextDeadline.2.mtime)
  /-- Nothing happens exactly when no timer is armed. -/
  idle : (c.skipToNextDeadline.1 = false ∧ c.skipToNextDeadline.2 = c) ↔
    ∀ id, id < c.nrHarts → c.mtimecmp id = BitVec.allOnes 64
  le : c.mtime ≤ c.skipToNextDeadline.2.mtime

/-- The three ways a skip can end. -/
theorem skipToNextDeadline_cases :
    c.earliest c.nrHarts = BitVec.allOnes 64 ∧ c.skipToNextDeadline = (false, c) ∨
    c.earliest c.nrHarts ≠ BitVec.allOnes 64 ∧ c.mtime < c.earliest c.nrHarts ∧
      c.skipToNextDeadline = (true, { c with mtime := c.earliest c.nrHarts }) ∨
    c.earliest c.nrHarts ≠ BitVec.allOnes 64 ∧ c.skipToNextDeadline = (true, c) := by
  unfold Clint.skipToNextDeadline
  simp only
  split_ifs with hnone hlater
  · exact .inl ⟨hnone, rfl⟩
  · exact .inr (.inl ⟨hnone, hlater, rfl⟩)
  · exact .inr (.inr ⟨hnone, rfl⟩)

/-- A skip that leaves the time alone reports whether a timer is armed. -/
theorem skipsToDeadline_of_still {skipped : Bool} (heq : c.skipToNextDeadline = (skipped, c))
    (hskipped : skipped = false ↔ c.earliest c.nrHarts = BitVec.allOnes 64) :
    SkipsToDeadline c := by
  refine ⟨?_, ?_, ?_, ?_⟩
  · rw [heq]
    exact fun hne => absurd rfl hne
  · rw [heq]
    exact fun id _ hlt => absurd hlt.2 (BitVec.not_lt.mpr (BitVec.le_of_lt hlt.1))
  · rw [heq, ← earliest_eq_allOnes_iff, ← hskipped]
    exact ⟨fun h => h.1, fun h => ⟨h, rfl⟩⟩
  · rw [heq]
    exact BitVec.le_refl _

theorem skipsToDeadline : SkipsToDeadline c := by
  rcases skipToNextDeadline_cases c with ⟨hnone, heq⟩ | ⟨hsome, hlater, heq⟩ | ⟨hsome, heq⟩
  · exact skipsToDeadline_of_still c heq ⟨fun _ => hnone, fun _ => rfl⟩
  · refine ⟨?_, ?_, ?_, ?_⟩
    · rw [heq]
      intro _
      rcases earliest_mem c c.nrHarts with hnone | hmem
      · exact absurd hnone hsome
      · exact ⟨hmem, earliest_le c c.nrHarts⟩
    · rw [heq]
      rintro id hid ⟨-, hlt⟩
      have hle := earliest_le c c.nrHarts id hid
      rw [BitVec.lt_def] at hlt
      rw [BitVec.le_def] at hle
      exact absurd hlt (by show ¬(c.mtimecmp id).toNat < (c.earliest c.nrHarts).toNat; omega)
    · rw [heq]
      constructor
      · rintro ⟨hreturn, -⟩
        cases hreturn
      · exact fun hall => absurd ((earliest_eq_allOnes_iff c _).mpr hall) hsome
    · rw [heq]
      rw [BitVec.lt_def] at hlater
      rw [BitVec.le_def]
      show c.mtime.toNat ≤ (c.earliest c.nrHarts).toNat
      omega
  · exact skipsToDeadline_of_still c heq ⟨fun h => absurd h (by decide), fun h => absurd h hsome⟩

end Skip

/-! ## Runs -/

/-- Nothing but the clock's drivers moves the clock. -/
inductive Step (s : Vm) : Vm → Prop
  /-- `clint_advance_time`, short of the end of time. -/
  | advance (ticks : DWord) (fits : s.clint.mtime.toNat + ticks.toNat < 2 ^ 64) :
      Step s { s with clint := s.clint.advanceTime ticks }
  | skip : Step s { s with clint := s.clint.skipToNextDeadline.2 }
  | refresh : Step s (finalState (refreshDeviceInterrupts s))
  /-- A translation unit boundary, whether or not an interrupt is taken. -/
  | pump (fits : s.clint.mtime.toNat + s.ticksPerTranslationUnit.toNat < 2 ^ 64) :
      Step s (finalState (pumpDevicesAndDeliverInterrupts s))
  | idle : Step s (finalState (hartIdle s))
  /-- Anything the guest does without writing `mtime`. -/
  | guest {t : Vm} (same : t.clint.mtime = s.clint.mtime) : Step s t

inductive Run (s : Vm) : Vm → Prop
  | refl : Run s s
  | step {t u : Vm} (run : Run s t) (step : Step t u) : Run s u

/-- The clock of `t` is that of `s`, or later. -/
abbrev Later (s t : Vm) : Prop :=
  s.clint.mtime ≤ t.clint.mtime

/-- `m` leaves the CLINT at `c`, whichever way it ends. -/
abbrev KeepsClint {α : Type} (c : Clint) (m : VmM α) : Prop :=
  Ends (fun t => t.clint = c) (fun _ t => t.clint = c) m

section KeepsClint

variable (c : Clint)

theorem keepsClint_uartPollInput : KeepsClint c uartPollInput := by
  unfold uartPollInput
  apply ends_get_bind
  intro s hs
  split
  · exact hs
  · split
    · exact hs
    · simp only
      split
      · exact hs
      · exact hs

theorem keepsClint_refreshDeviceInterrupts : KeepsClint c refreshDeviceInterrupts := by
  have hdrive : KeepsClint c (do uartRefreshInterrupt; clintRefreshPending; plicRefreshPending) :=
    fun _ hs => hs
  unfold refreshDeviceInterrupts
  apply ends_get_bind
  intro s hs
  simp only
  split
  · exact ends_bind (keepsClint_uartPollInput c) (fun _ => hdrive) { s with pollCountdown := _ } hs
  · exact hdrive { s with pollCountdown := _ } hs

theorem keepsClint_deliverInterrupt (vector : Nat) :
    KeepsClint c (deliverInterrupt vector : VmM Unit) := by
  unfold deliverInterrupt raiseTrapRaw
  apply ends_get_bind
  intro s hs
  rw [wp_bind]
  unfold assert
  split
  · exact hs
  · exact hs

theorem keepsClint_deliverFirst (vectors : List Nat) : KeepsClint c (deliverFirst vectors) := by
  induction vectors with
  | nil => exact ends_pure _
  | cons vector rest ih =>
      unfold deliverFirst
      apply ends_get_bind
      intro s hs
      split
      · exact keepsClint_deliverInterrupt c vector s hs
      · exact ih s hs

end KeepsClint

/-- The state a boundary leaves has the ticks of one translation unit added. -/
theorem pump_clint (s : Vm) :
    (finalState (pumpDevicesAndDeliverInterrupts s)).clint =
      s.clint.advanceTime s.ticksPerTranslationUnit := by
  have hrest : KeepsClint (s.clint.advanceTime s.ticksPerTranslationUnit) (do
      refreshDeviceInterrupts
      deliverFirst deliveryOrder) := by
    apply ends_bind
    · exact keepsClint_refreshDeviceInterrupts _
    · intro _
      exact keepsClint_deliverFirst _ _
  have hpump : pumpDevicesAndDeliverInterrupts s =
      (do refreshDeviceInterrupts; deliverFirst deliveryOrder)
        { s with clint := s.clint.advanceTime s.ticksPerTranslationUnit } := rfl
  rw [hpump]
  apply hrest.finalState
  rfl

/-! ## Idling -/

section Idle

variable (c : Clint)

theorem earliest_mtime (time : DWord) (n : Nat) :
    ({ c with mtime := time } : Clint).earliest n = c.earliest n := by
  induction n with
  | zero => rfl
  | succ n ih =>
      unfold Clint.earliest
      rw [ih]

/-- A second skip finds the clock at the deadline already. -/
theorem skipToNextDeadline_skipToNextDeadline :
    c.skipToNextDeadline.2.skipToNextDeadline.2 = c.skipToNextDeadline.2 := by
  rcases skipToNextDeadline_cases c with ⟨-, heq⟩ | ⟨hsome, -, heq⟩ | ⟨-, heq⟩
  · rw [heq, heq]
  · rw [heq]
    unfold Clint.skipToNextDeadline
    simp only
    rw [earliest_mtime, if_neg hsome, if_neg (BitVec.lt_irrefl _)]
  · rw [heq, heq]

/-- However many rounds an idle hart polls for, the clock is skipped at most once. -/
theorem ends_hartIdleLoop (n : Nat) :
    Ends (fun t : Vm => t.clint = c ∨ t.clint = c.skipToNextDeadline.2)
      (fun _ t => t.clint = c ∨ t.clint = c.skipToNextDeadline.2) (hartIdleLoop n) := by
  have hor : ∀ {m : VmM Unit}, (∀ c, KeepsClint c m) →
      Ends (fun t : Vm => t.clint = c ∨ t.clint = c.skipToNextDeadline.2)
        (fun _ t => t.clint = c ∨ t.clint = c.skipToNextDeadline.2) m := by
    intro m hm s hs
    rcases hs with hs | hs
    · exact wp_mono (hm _ s hs) (fun _ _ h => .inl h) fun _ _ h => .inl h
    · exact wp_mono (hm _ s hs) (fun _ _ h => .inr h) fun _ _ h => .inr h
  induction n with
  | zero => exact ends_pure _
  | succ n ih =>
      unfold hartIdleLoop
      apply ends_bind (hor keepsClint_uartPollInput)
      intro _
      apply ends_bind (hor keepsClint_refreshDeviceInterrupts)
      intro _
      apply ends_get_bind
      intro s hs
      split
      · exact hs
      · apply ih
        right
        rcases hs with hs | hs
        · show s.clint.skipToNextDeadline.2 = _
          rw [hs]
        · show s.clint.skipToNextDeadline.2 = _
          rw [hs, skipToNextDeadline_skipToNextDeadline]

theorem hartIdle_clint (s : Vm) :
    (finalState (hartIdle s)).clint = s.clint ∨
      (finalState (hartIdle s)).clint = s.clint.skipToNextDeadline.2 :=
  (ends_hartIdleLoop s.clint 64).finalState (.inl rfl)

end Idle

/-! ## The clock of a run -/

theorem advanceTime_le {c : Clint} {ticks : DWord}
    (fits : c.mtime.toNat + ticks.toNat < 2 ^ 64) : c.mtime ≤ (c.advanceTime ticks).mtime := by
  show c.mtime ≤ c.mtime + ticks
  rw [BitVec.le_def, BitVec.toNat_add, Nat.mod_eq_of_lt fits]
  omega

theorem Step.later {s t : Vm} (h : Step s t) : Later s t := by
  cases h with
  | advance ticks fits => exact advanceTime_le fits
  | skip => exact (skipsToDeadline s.clint).le
  | refresh =>
      have hkeeps := (keepsClint_refreshDeviceInterrupts s.clint).finalState (s := s) rfl
      rw [Later, hkeeps]
      exact BitVec.le_refl _
  | pump fits =>
      rw [Later, pump_clint]
      exact advanceTime_le fits
  | idle =>
      rw [Later]
      rcases hartIdle_clint s with heq | heq
      · rw [heq]
        exact BitVec.le_refl _
      · rw [heq]
        exact (skipsToDeadline s.clint).le
  | guest same =>
      rw [Later, same]
      exact BitVec.le_refl _

theorem Run.later {s t : Vm} (h : Run s t) : Later s t := by
  induction h with
  | refl => exact BitVec.le_refl _
  | step _ step ih => exact BitVec.le_trans ih step.later

theorem Run.trans {s t u : Vm} (h : Run s t) (h' : Run t u) : Run s u := by
  induction h' with
  | refl => exact h
  | step _ step ih => exact .step ih step

/-! ## Reading the clock in halves -/

/--
A guest reads `timeh`, `time` and `timeh` until the high halves agree, with any
run between two reads.  It ends with `value`, having last read `time` in `r`.
-/
inductive ReadsTime : Vm → DWord → Vm → Prop
  | agree {s a a' r r' b b' : Vm} {high low : Word}
      (before : Run s a) (first : csrRead timehCsrEntry a = .ok high a')
      (between : Run a' r) (middle : csrRead timeCsrEntry r = .ok low r')
      (after : Run r' b) (last : csrRead timehCsrEntry b = .ok high b') :
      ReadsTime s (high ++ low) r
  | retry {s a a' r r' b b' u : Vm} {high low high' : Word} {value : DWord}
      (before : Run s a) (first : csrRead timehCsrEntry a = .ok high a')
      (between : Run a' r) (middle : csrRead timeCsrEntry r = .ok low r')
      (after : Run r' b) (last : csrRead timehCsrEntry b = .ok high' b')
      (differ : high' ≠ high) (again : ReadsTime b' value u) :
      ReadsTime s value u

/-- The high half of the clock, as `csr_timeh_read` computes it. -/
abbrev highHalf (s : Vm) : Word :=
  (s.clint.mtime >>> 32).setWidth 32

theorem and_WPRI_MASK_ALL (value : Word) : value &&& WPRI_MASK_ALL = value :=
  BitVec.and_allOnes

theorem csrRead_timeh {s t : Vm} {value : Word} (h : csrRead timehCsrEntry s = .ok value t) :
    value = highHalf s ∧ t = s := by
  have hread : csrRead timehCsrEntry s = .ok (highHalf s &&& WPRI_MASK_ALL) s := rfl
  rw [hread, and_WPRI_MASK_ALL] at h
  injection h with hvalue hstate
  exact ⟨hvalue.symm, hstate.symm⟩

/-- Reading `time` latches the clock and does not move it. -/
theorem csrRead_time {s t : Vm} {value : Word} (h : csrRead timeCsrEntry s = .ok value t) :
    value = s.clint.mtime.setWidth 32 ∧ t.clint = s.clint := by
  have hread : csrRead timeCsrEntry s = .ok (s.clint.mtime.setWidth 32 &&& WPRI_MASK_ALL)
      { s with hart := { s.hart with tsc := s.clint.mtime } } := rfl
  rw [hread, and_WPRI_MASK_ALL] at h
  injection h with hvalue hstate
  subst hstate
  exact ⟨hvalue.symm, rfl⟩

theorem toNat_highHalf (s : Vm) : (highHalf s).toNat = s.clint.mtime.toNat / 2 ^ 32 := by
  have hlt := s.clint.mtime.isLt
  rw [BitVec.toNat_setWidth, BitVec.toNat_ushiftRight, Nat.shiftRight_eq_div_pow]
  omega

theorem Later.highHalf_le {s t : Vm} (h : Later s t) :
    (highHalf s).toNat ≤ (highHalf t).toNat := by
  rw [Later, BitVec.le_def] at h
  rw [toNat_highHalf, toNat_highHalf]
  omega

theorem highHalf_append (s : Vm) :
    (highHalf s ++ s.clint.mtime.setWidth 32 : DWord) = s.clint.mtime := by
  have hlt := s.clint.mtime.isLt
  apply BitVec.eq_of_toNat_eq
  rw [BitVec.toNat_append, toNat_highHalf, BitVec.toNat_setWidth,
    ← Nat.shiftLeft_add_eq_or_of_lt (Nat.mod_lt _ (by decide)), Nat.shiftLeft_eq]
  omega

/-- The high half is the same at all three reads, for the clock cannot have gone back. -/
theorem highHalf_eq_between {a r b : Vm} (h : Later a r) (h' : Later r b)
    (hsame : highHalf a = highHalf b) : highHalf r = highHalf a := by
  have hle := h.highHalf_le
  have hle' := h'.highHalf_le
  rw [← hsame] at hle'
  apply BitVec.eq_of_toNat_eq
  omega

theorem ReadsTime.value_eq {s r : Vm} {value : DWord} (h : ReadsTime s value r) :
    value = r.clint.mtime := by
  induction h with
  | @agree _ a a' r r' b b' high low _ first between middle after last =>
      obtain ⟨hhigh, hsame⟩ := csrRead_timeh first
      obtain ⟨hlow, hclint⟩ := csrRead_time middle
      obtain ⟨hhigh', -⟩ := csrRead_timeh last
      have hlater : Later a r := hsame ▸ between.later
      have hlater' : Later r b := by
        have h := after.later
        rw [Later, hclint] at h
        exact h
      have hmiddle := highHalf_eq_between hlater hlater' (hhigh.symm.trans hhigh')
      rw [hlow, hhigh, ← hmiddle]
      exact highHalf_append r
  | retry _ _ _ _ _ _ _ _ ih => exact ih

/-- What the guest can rely on from a state of its run on. -/
structure Dependable (s : Vm) : Prop where
  skip : SkipsToDeadline s.clint
  idle : (finalState (hartIdle s)).clint = s.clint ∨
    (finalState (hartIdle s)).clint = s.clint.skipToNextDeadline.2
  reads : ∀ {value r}, ReadsTime s value r → value = r.clint.mtime

/--
In a run that never writes `mtime` and does not reach the end of time the clock
only goes forward.  From every state of it a skip goes to the first deadline,
and the read loop returns what the clock was when it read the low half.
-/
theorem virtual_clock_dependable {s t : Vm} (run : Run s t) : Later s t ∧ Dependable t :=
  ⟨run.later, skipsToDeadline t.clint, hartIdle_clint t, fun reads => reads.value_eq⟩

/-- A boundary of the reset machine, after which the read loop sees two ticks. -/
theorem virtual_clock_dependable_reset :
    ∃ t r, Run (virtualMachineInit (fun _ => 0) fun _ => 0) t ∧ ReadsTime t 2 r ∧
      r.clint.mtime = 2 := by
  have hstep : Step (virtualMachineInit (fun _ => 0) fun _ => 0) _ := .pump (by decide)
  have hrun := Run.step .refl hstep
  generalize hs : finalState _ = s at hrun
  have hmtime : s.clint.mtime = 2 := by
    rw [← hs, pump_clint]
    rfl
  have hreads := ReadsTime.agree (s := s) .refl rfl .refl rfl .refl rfl
  rw [hmtime] at hreads
  exact ⟨s, s, hrun, hreads, ((virtual_clock_dependable hrun).2.reads hreads).symm⟩

end Zelda.Proofs.VirtualClock
