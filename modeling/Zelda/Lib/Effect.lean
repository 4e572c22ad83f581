import Mathlib.Tactic.Common
import Mathlib.Logic.Function.Basic
/-!
# Reasoning about fallible stateful computations

Weakest preconditions for `EStateM`, with the normal and the abnormal outcome
kept apart, and the rules for predicates that a computation keeps until it
ends.  Nothing here depends on the emulator.
-/

namespace Zelda.Lib.Effect

variable {ε σ α β : Type}

/-! ## Running a computation -/

@[simp] theorem pure_apply (a : α) (s : σ) :
    (pure a : EStateM ε σ α) s = .ok a s := rfl

theorem bind_apply (m : EStateM ε σ α) (f : α → EStateM ε σ β) (s : σ) :
    (m >>= f) s =
      match m s with
      | .ok a t => f a t
      | .error e t => .error e t := rfl

@[simp] theorem bind_apply_ok {m : EStateM ε σ α} {f : α → EStateM ε σ β} {s t : σ} {a : α}
    (h : m s = .ok a t) : (m >>= f) s = f a t := by
  rw [bind_apply, h]

@[simp] theorem bind_apply_error {m : EStateM ε σ α} {f : α → EStateM ε σ β} {s t : σ} {e : ε}
    (h : m s = .error e t) : (m >>= f) s = .error e t := by
  rw [bind_apply, h]

@[simp] theorem get_apply (s : σ) : (get : EStateM ε σ σ) s = .ok s s := rfl

@[simp] theorem set_apply (s t : σ) : (set t : EStateM ε σ PUnit) s = .ok ⟨⟩ t := rfl

@[simp] theorem modify_apply (f : σ → σ) (s : σ) :
    (modify f : EStateM ε σ PUnit) s = .ok ⟨⟩ (f s) := rfl

/-- The state a computation leaves behind, whichever way it ends. -/
def finalState (r : EStateM.Result ε σ α) : σ :=
  match r with
  | .ok _ t => t
  | .error _ t => t

@[simp] theorem finalState_ok (a : α) (t : σ) :
    finalState (.ok a t : EStateM.Result ε σ α) = t := rfl

@[simp] theorem finalState_error (e : ε) (t : σ) :
    finalState (.error e t : EStateM.Result ε σ α) = t := rfl

/-- Whether a computation ended normally. -/
def isOk : EStateM.Result ε σ α → Bool
  | .ok .. => true
  | .error .. => false

theorem eq_ok_of_isOk {r : EStateM.Result ε σ α} (h : isOk r = true) :
    ∃ a, r = .ok a (finalState r) := by
  cases r with
  | ok a t => exact ⟨a, rfl⟩
  | error e t => cases h

/-- How a computation failed, if it did. -/
def abortOf : EStateM.Result ε σ α → Option ε
  | .ok .. => none
  | .error e _ => some e

theorem eq_error_of_abortOf {r : EStateM.Result ε σ α} {e : ε} (h : abortOf r = some e) :
    r = .error e (finalState r) := by
  cases r with
  | ok a t => cases h
  | error e' t =>
      cases h
      rfl

/-! ## Weakest preconditions -/

/-- Running `m` from `s` ends normally in `Q` or abnormally in `E`. -/
def Wp (m : EStateM ε σ α) (Q : α → σ → Prop) (E : ε → σ → Prop) (s : σ) : Prop :=
  match m s with
  | .ok a t => Q a t
  | .error e t => E e t

section Wp

variable {Q : α → σ → Prop} {E : ε → σ → Prop} {s : σ}

theorem wp_of_ok {m : EStateM ε σ α} {a : α} {t : σ} (h : m s = .ok a t) :
    Wp m Q E s ↔ Q a t := by
  rw [Wp, h]

theorem wp_of_error {m : EStateM ε σ α} {e : ε} {t : σ} (h : m s = .error e t) :
    Wp m Q E s ↔ E e t := by
  rw [Wp, h]

/-- Both outcomes, with the run that leads to each. -/
theorem wp_of_runs {m : EStateM ε σ α} (hok : ∀ a t, m s = .ok a t → Q a t)
    (herror : ∀ e t, m s = .error e t → E e t) : Wp m Q E s := by
  unfold Wp
  cases hm : m s with
  | ok a t => exact hok a t hm
  | error e t => exact herror e t hm

@[simp] theorem wp_pure (a : α) : Wp (pure a) Q E s ↔ Q a s := Iff.rfl

@[simp] theorem wp_get {Q : σ → σ → Prop} : Wp get Q E s ↔ Q s s := Iff.rfl

@[simp] theorem wp_set {Q : PUnit → σ → Prop} (t : σ) : Wp (set t) Q E s ↔ Q ⟨⟩ t := Iff.rfl

@[simp] theorem wp_modify {Q : PUnit → σ → Prop} (f : σ → σ) :
    Wp (modify f) Q E s ↔ Q ⟨⟩ (f s) := Iff.rfl

@[simp] theorem wp_throw (e : ε) : Wp (throw e : EStateM ε σ α) Q E s ↔ E e s := Iff.rfl

theorem wp_bind {m : EStateM ε σ α} {f : α → EStateM ε σ β} {Q : β → σ → Prop} :
    Wp (m >>= f) Q E s ↔ Wp m (fun a t => Wp (f a) Q E t) E s := by
  unfold Wp
  rw [bind_apply]
  cases m s <;> rfl

theorem wp_mono {m : EStateM ε σ α} {Q' : α → σ → Prop} {E' : ε → σ → Prop}
    (h : Wp m Q E s) (hQ : ∀ a t, Q a t → Q' a t) (hE : ∀ e t, E e t → E' e t) :
    Wp m Q' E' s := by
  unfold Wp at h ⊢
  cases hm : m s with
  | ok a t =>
      rw [hm] at h
      exact hQ a t h
  | error e t =>
      rw [hm] at h
      exact hE e t h

theorem wp_and {m : EStateM ε σ α} {Q' : α → σ → Prop} {E' : ε → σ → Prop} (h : Wp m Q E s)
    (h' : Wp m Q' E' s) : Wp m (fun a t => Q a t ∧ Q' a t) (fun e t => E e t ∧ E' e t) s := by
  unfold Wp at h h' ⊢
  cases hm : m s with
  | ok a t =>
      rw [hm] at h h'
      exact ⟨h, h'⟩
  | error e t =>
      rw [hm] at h h'
      exact ⟨h, h'⟩

end Wp

/-! ## Invariants of a computation -/

/-- From a state in `I`, `m` ends normally in `I` or abnormally in `E`. -/
def Ends (I : σ → Prop) (E : ε → σ → Prop) (m : EStateM ε σ α) : Prop :=
  ∀ s, I s → Wp m (fun _ t => I t) E s

section Ends

variable {I : σ → Prop} {E : ε → σ → Prop}

theorem ends_pure (a : α) : Ends I E (pure a : EStateM ε σ α) :=
  fun _ h => h

theorem ends_get : Ends I E (get : EStateM ε σ σ) :=
  fun _ h => h

theorem ends_throw {e : ε} (h : ∀ s, I s → E e s) : Ends I E (throw e : EStateM ε σ α) :=
  h

theorem ends_modify {f : σ → σ} (hf : ∀ s, I s → I (f s)) :
    Ends I E (modify f : EStateM ε σ PUnit) :=
  hf

theorem ends_bind {m : EStateM ε σ α} {f : α → EStateM ε σ β} (hm : Ends I E m)
    (hf : ∀ a, Ends I E (f a)) : Ends I E (m >>= f) := by
  intro s hs
  rw [wp_bind]
  exact wp_mono (hm s hs) (fun a t ht => hf a t ht) fun _ _ h => h

/-- `bind` after reading the state: the continuation only has to be right at the state read. -/
theorem ends_get_bind {f : σ → EStateM ε σ β}
    (hf : ∀ s, I s → Wp (f s) (fun _ t => I t) E s) :
    Ends I E ((get : EStateM ε σ σ) >>= f) :=
  hf

theorem ends_ite {c : Prop} [Decidable c] {m m' : EStateM ε σ α} (hm : Ends I E m)
    (hm' : Ends I E m') : Ends I E (if c then m else m') := by
  split <;> assumption

/-- Where abnormal outcomes are in `I` too, `I` survives every run. -/
theorem Ends.finalState {m : EStateM ε σ α} (h : Ends I (fun _ => I) m) {s : σ} (hs : I s) :
    I (finalState (m s)) := by
  have hwp := h s hs
  unfold Wp at hwp
  cases hm : m s with
  | ok a t =>
      rw [hm] at hwp
      exact hwp
  | error e t =>
      rw [hm] at hwp
      exact hwp

end Ends

end Zelda.Lib.Effect
