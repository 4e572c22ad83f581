import Zelda.Vmm.Ini
import Mathlib.Data.List.DropRight
import Mathlib.Data.List.TakeWhile
/-!
# Looking keys up in a split file

The buffer holds strings with terminators between them.  A walk over it finds
what the list of these strings says, and never leaves the buffer.
-/

namespace Zelda.Proofs.IniLookup

open Zelda.Vmm
open Zelda.Vmm.Ascii
open Zelda.Lib.ByteBuffer

/-! ## Buffers -/

section Buffers

variable {front back : List Byte} {c : Byte}

theorem load_append (front back : List Byte) (c : Byte) :
    (front ++ c :: back)[front.length]? = some c := by
  rw [List.getElem?_append_right le_rfl, Nat.sub_self, List.getElem?_cons_zero]

theorem storeByte_append (front back : List Byte) (c value : Byte) :
    storeByte (front ++ c :: back) front.length value = some (front ++ value :: back) := by
  rw [storeByte, if_pos, List.set_append_right _ _ le_rfl, Nat.sub_self, List.set_cons_zero]
  rw [List.length_append, List.length_cons]
  omega

theorem drop_takeWhile (q : Byte → Bool) (l : List Byte) :
    l.drop (l.takeWhile q).length = l.dropWhile q := by
  calc
    l.drop (l.takeWhile q).length
        = (l.takeWhile q ++ l.dropWhile q).drop (l.takeWhile q).length := by
          rw [List.takeWhile_append_dropWhile]
    _ = l.dropWhile q := List.drop_left

theorem nul_not_mem_takeWhile (l : List Byte) : nul ∉ l.takeWhile (· != nul) := by
  intro hmem
  simpa using List.mem_takeWhile_imp hmem

/-- What dropping stops at. -/
theorem eq_cons_of_dropWhile {q : Byte → Bool} {l : List Byte} {d : Byte} {ds : List Byte}
    (h : l.dropWhile q = d :: ds) : q d = false := by
  have hhead := List.head?_dropWhile_not q l
  rw [h, List.head?_cons] at hhead
  exact hhead

end Buffers

/-! ## Strings -/

/-- A string, unless it is empty. -/
def nonempty (s : List Byte) : List (List Byte) :=
  if s = [] then [] else [s]

theorem nonempty_of_ne {s : List Byte} (h : s ≠ []) : nonempty s = [s] :=
  if_neg h

/-- The strings of a buffer, of which `current` has been read. -/
def stringsFrom : List Byte → List Byte → List (List Byte)
  | current, [] => nonempty current
  | current, c :: rest =>
      if c = nul then nonempty current ++ stringsFrom [] rest
      else stringsFrom (current ++ [c]) rest

/-- The strings of a split buffer. -/
def strings (body : List Byte) : List (List Byte) :=
  stringsFrom [] body

theorem strings_nul (body : List Byte) : strings (nul :: body) = strings body := rfl

theorem stringsFrom_append_nul (current front back : List Byte) :
    stringsFrom current (front ++ nul :: back) = stringsFrom current front ++ strings back := by
  induction front generalizing current with
  | nil => rfl
  | cons c front ih =>
      rw [List.cons_append, stringsFrom, stringsFrom]
      split
      · rw [ih, List.append_assoc]
      · exact ih _

theorem strings_append_nul (front back : List Byte) :
    strings (front ++ nul :: back) = strings front ++ strings back :=
  stringsFrom_append_nul [] front back

theorem stringsFrom_of_not_mem (current : List Byte) {s : List Byte} (h : nul ∉ s) :
    stringsFrom current s = nonempty (current ++ s) := by
  induction s generalizing current with
  | nil => rw [List.append_nil, stringsFrom]
  | cons c s ih =>
      obtain ⟨hc, hs⟩ := List.ne_and_not_mem_of_not_mem_cons h
      rw [stringsFrom, if_neg (Ne.symm hc), ih _ hs, List.append_assoc, List.singleton_append]

theorem strings_of_not_mem {s : List Byte} (h : nul ∉ s) : strings s = nonempty s :=
  stringsFrom_of_not_mem [] h

theorem strings_replicate (n : Nat) : strings (List.replicate n nul) = [] := by
  induction n with
  | zero => rfl
  | succ n ih => rw [List.replicate_succ, strings_nul, ih]

theorem strings_dropWhile (body : List Byte) :
    strings (body.dropWhile (· == nul)) = strings body := by
  induction body with
  | nil => rfl
  | cons c body ih =>
      rw [List.dropWhile_cons]
      split
      · rename_i hc
        obtain rfl : c = nul := by simpa using hc
        rw [ih, strings_nul]
      · rfl

/-! ## Walking the strings -/

/-- The same name but for the case of its letters. -/
def SameName (a b : List Byte) : Prop :=
  a.map tolower = b.map tolower

instance (a b : List Byte) : Decidable (SameName a b) :=
  inferInstanceAs (Decidable (a.map tolower = b.map tolower))

theorem tolower_eq_nul {c : Byte} : tolower c = tolower nul ↔ c = nul := by
  have h : ∀ c : Byte, tolower c = tolower nul ↔ c = nul := by decide
  exact h c

theorem tolower_difference {x y : Byte} :
    (tolower x).toInt - (tolower y).toInt = 0 ↔ tolower x = tolower y := by
  rw [sub_eq_zero, BitVec.toInt_inj]

theorem strcmpci_cons {x : Byte} {a b : List Byte} :
    strcmpci (x :: a) b = 0 ↔ tolower x = tolower (b.headD nul) ∧ strcmpci a b.tail = 0 := by
  rw [← tolower_difference, strcmpci]
  generalize b.headD nul = y
  by_cases h : (tolower x).toInt - (tolower y).toInt = 0
  · simp [h]
  · simp [h]

theorem strcmpci_eq_zero {a b : List Byte} (ha : nul ∉ a) (hb : nul ∉ b) :
    strcmpci a b = 0 ↔ SameName a b := by
  unfold SameName
  induction a generalizing b with
  | nil =>
      rw [strcmpci, tolower_difference]
      cases b with
      | nil => simp
      | cons y b =>
          have hy := (List.ne_and_not_mem_of_not_mem_cons hb).1
          rw [List.headD_cons, eq_comm, tolower_eq_nul]
          simp [hy.symm]
  | cons x a ih =>
      obtain ⟨hx, ha⟩ := List.ne_and_not_mem_of_not_mem_cons ha
      rw [strcmpci_cons]
      cases b with
      | nil =>
          rw [List.headD_nil, tolower_eq_nul]
          simp [hx.symm]
      | cons y b =>
          rw [List.headD_cons, List.tail_cons, ih ha (List.ne_and_not_mem_of_not_mem_cons hb).2,
            List.map_cons, List.map_cons, List.cons.injEq]

/--
Looking a key up among the strings: a string with a bracket opens a section,
any other is a key, and the next one its value.
-/
def lookup (wanted : Option (List Byte)) (key : List Byte) :
    List Byte → List (List Byte) → Option (List Byte)
  | _, [] => none
  | current, t :: ts =>
      if t.head? = some openBracket then lookup wanted key t.tail ts
      else
        let found := (∀ name ∈ wanted, SameName name current) ∧ SameName t key
        match ts with
        | [] => if found then some [] else none
        | value :: ts => if found then some value else lookup wanted key current ts

/-- A buffer with a terminator behind it. -/
def terminated (body : List Byte) : Ini :=
  { data := body ++ [nul], fin := body.length }

section Walk

variable {body : List Byte} {p : Nat}

/-- The string at `p`. -/
theorem stringAt_terminated (hp : p ≤ body.length) :
    stringAt nul (terminated body).data p = some ((body.drop p).takeWhile (· != nul)) := by
  have hdrop : (terminated body).data.drop p = body.drop p ++ [nul] :=
    List.drop_append_of_le_length hp
  have htake : (body.drop p ++ [nul]).takeWhile (fun c => decide (c ≠ nul)) =
      (body.drop p).takeWhile (· != nul) := by
    generalize body.drop p = l
    induction l with
    | nil => rfl
    | cons c l ih =>
        rw [List.cons_append, List.takeWhile_cons, List.takeWhile_cons, ih]
        by_cases hc : c = nul <;> simp [hc]
  rw [stringAt, hdrop, htake, if_pos]
  exact List.mem_append_right _ (List.mem_singleton_self nul)

theorem skipNuls_terminated (rounds : Nat) (hp : p ≤ body.length)
    (hrounds : body.length - p < rounds) :
    ∃ p', skipNuls (terminated body) rounds p = some p' ∧ p ≤ p' ∧ p' ≤ body.length ∧
      body.drop p' = (body.drop p).dropWhile (· == nul) := by
  induction rounds generalizing p with
  | zero => exact absurd hrounds (Nat.not_lt_zero _)
  | succ rounds ih =>
      unfold skipNuls
      by_cases hlt : p < body.length
      · have hload : (terminated body).data[p]? = some (body.get ⟨p, hlt⟩) := by
          rw [terminated, List.getElem?_append_left hlt, List.getElem?_eq_getElem hlt]
          rfl
        have hdrop : body.drop p = body.get ⟨p, hlt⟩ :: body.drop (p + 1) :=
          List.drop_eq_getElem_cons hlt
        rw [if_pos (show p < (terminated body).fin from hlt), hload, hdrop, List.dropWhile_cons]
        simp only [Option.bind_eq_bind, Option.bind_some, beq_iff_eq]
        by_cases hnul : body.get ⟨p, hlt⟩ = nul
        · obtain ⟨p', hrun, hle, hbound, heq⟩ := ih (p := p + 1) hlt (by omega)
          rw [if_pos hnul, if_pos hnul]
          exact ⟨p', hrun, by omega, hbound, heq⟩
        · rw [if_neg hnul, if_neg hnul]
          exact ⟨p, rfl, le_rfl, hp, hdrop⟩
      · rw [if_neg (show ¬p < (terminated body).fin from hlt)]
        refine ⟨p, rfl, le_rfl, hp, ?_⟩
        rw [List.drop_eq_nil_of_le (Nat.le_of_not_lt hlt)]
        rfl

/-- `next` goes to the string behind the one at `p`. -/
theorem iniNext_terminated (hp : p ≤ body.length) :
    ∃ p', iniNext (terminated body) p = some p' ∧
      p + ((body.drop p).takeWhile (· != nul)).length ≤ p' ∧ p' ≤ body.length ∧
      body.drop p' = ((body.drop p).dropWhile (· != nul)).dropWhile (· == nul) := by
  have hlen := (List.takeWhile_sublist (l := body.drop p) (· != nul)).length_le
  rw [List.length_drop] at hlen
  have hend : p + ((body.drop p).takeWhile (· != nul)).length ≤ body.length := by omega
  obtain ⟨p', hskip, hle, hbound, heq⟩ :=
    skipNuls_terminated (body.length + 1) hend (Nat.lt_succ_of_le (Nat.sub_le _ _))
  refine ⟨p', ?_, hle, hbound, ?_⟩
  · rw [iniNext, strlen, stringAt_terminated hp]
    exact hskip
  · rw [heq, ← List.drop_drop, drop_takeWhile]

/-- The first string of a body that begins with one. -/
theorem strings_walk {c : Byte} {rest : List Byte} (hc : c ≠ nul) :
    strings (c :: rest) = (c :: rest).takeWhile (· != nul) ::
      strings (((c :: rest).dropWhile (· != nul)).dropWhile (· == nul)) := by
  have htake : (c :: rest).takeWhile (· != nul) ≠ [] := by
    rw [List.takeWhile_cons, if_pos (by simpa using hc)]
    exact List.cons_ne_nil _ _
  have hfree := nul_not_mem_takeWhile (c :: rest)
  rw [strings_dropWhile]
  conv_lhs => rw [← List.takeWhile_append_dropWhile (p := (· != nul)) (l := c :: rest)]
  cases hdrop : (c :: rest).dropWhile (· != nul) with
  | nil =>
      rw [List.append_nil, strings_of_not_mem hfree, nonempty_of_ne htake]
      rfl
  | cons d ds =>
      obtain rfl : d = nul := by simpa using eq_cons_of_dropWhile hdrop
      rw [strings_append_nul, strings_of_not_mem hfree, nonempty_of_ne htake, strings_nul]
      rfl

/-- The name of the section a pointer leads to. -/
def sectionAt (body : List Byte) : Option Nat → List Byte
  | none => []
  | some p => (body.drop p).takeWhile (· != nul)

/-- A pointer into the buffer, or the empty literal. -/
def Inside (body : List Byte) (q : Option Nat) : Prop :=
  ∀ p ∈ q, p ≤ body.length

theorem sectionMatches_terminated (wanted : Option CString) {cur : Option Nat}
    (hcur : Inside body cur) :
    ∃ b, sectionMatches (terminated body) wanted cur = some b ∧
      (b = true ↔ ∀ name ∈ wanted.map CString.bytes, SameName name (sectionAt body cur)) := by
  have hname : currentSectionName (terminated body) cur = some (sectionAt body cur) := by
    cases cur with
    | none => rfl
    | some p => exact stringAt_terminated (hcur p rfl)
  have hfree : nul ∉ sectionAt body cur := by
    cases cur with
    | none => exact List.not_mem_nil
    | some p => exact nul_not_mem_takeWhile _
  cases wanted with
  | none => exact ⟨true, rfl, by simp⟩
  | some name =>
      refine ⟨strcmpci name.bytes (sectionAt body cur) == 0, ?_, ?_⟩
      · rw [sectionMatches, hname]
        rfl
      · rw [beq_iff_eq, strcmpci_eq_zero name.noNul hfree]
        simp

/-- What a result of `ini_get` leads to. -/
def valueAt (body : List Byte) (q : Option Nat) : Option (List Byte) :=
  q.map fun p => (body.drop p).takeWhile (· != nul)

theorem iniGetLoop_terminated (wanted : Option CString) (key : CString) (rounds : Nat)
    {cur : Option Nat} (hcur : Inside body cur) (hp : p ≤ body.length)
    (hsettled : (body.drop p).dropWhile (· == nul) = body.drop p)
    (hrounds : body.length - p < rounds) :
    ∃ r, iniGetLoop (terminated body) wanted key rounds cur p = some r ∧ Inside body r ∧
      valueAt body r =
        lookup (wanted.map CString.bytes) key.bytes (sectionAt body cur)
          (strings (body.drop p)) := by
  induction rounds generalizing cur p with
  | zero => exact absurd hrounds (Nat.not_lt_zero _)
  | succ rounds ih =>
      unfold iniGetLoop
      by_cases hlt : p < body.length
      · obtain ⟨c, rest, hdrop⟩ : ∃ c rest, body.drop p = c :: rest :=
          ⟨_, _, List.drop_eq_getElem_cons hlt⟩
        have hload : (terminated body).data[p]? = some c := by
          rw [terminated, List.getElem?_append_left hlt, ← Nat.add_zero p, ← List.getElem?_drop,
            hdrop, List.getElem?_cons_zero]
        have hc : c ≠ nul := by simpa using eq_cons_of_dropWhile (hsettled.trans hdrop)
        have hpos : 0 < ((body.drop p).takeWhile (· != nul)).length := by
          rw [hdrop, List.takeWhile_cons, if_pos (by simpa using hc)]
          exact Nat.succ_pos _
        obtain ⟨v, hnext, hvle, hv, hvdrop⟩ := iniNext_terminated hp
        have hvsettled : (body.drop v).dropWhile (· == nul) = body.drop v := by
          rw [hvdrop, List.dropWhile_idempotent]
        have hstrings : strings (body.drop p) =
            (body.drop p).takeWhile (· != nul) :: strings (body.drop v) := by
          rw [hvdrop, hdrop]
          exact strings_walk hc
        have hhead : ((body.drop p).takeWhile (· != nul)).head? = some c := by
          rw [hdrop, List.takeWhile_cons, if_pos (by simpa using hc)]
          rfl
        rw [if_pos (show p < (terminated body).fin from hlt), hload, hstrings, lookup, hhead]
        simp only [Option.bind_eq_bind, Option.bind_some, Option.some.injEq, hnext]
        by_cases hopen : c = openBracket
        · have hin : Inside body (some (p + 1)) := by
            rintro _ ⟨⟩
            exact hlt
          have htail : ((body.drop p).takeWhile (· != nul)).tail = sectionAt body (some (p + 1)) := by
            rw [sectionAt, ← List.tail_drop, hdrop, List.takeWhile_cons, if_pos (by simpa using hc)]
            rfl
          rw [if_pos hopen, if_pos hopen, htail]
          exact ih hin hv hvsettled (by omega)
        · rw [if_neg hopen, if_neg hopen]
          obtain ⟨b, hmatches, hb⟩ := sectionMatches_terminated wanted hcur
          have hfree := nul_not_mem_takeWhile (body.drop p)
          have hkey : (strcmpci ((body.drop p).takeWhile (· != nul)) key.bytes == 0) = true ↔
              SameName ((body.drop p).takeWhile (· != nul)) key.bytes := by
            rw [beq_iff_eq]
            exact strcmpci_eq_zero hfree key.noNul
          simp only [hmatches, stringAt_terminated hp, Option.bind_some, Bool.and_eq_true, hb, hkey]
          obtain ⟨w, hnext', hwle, hw, hwdrop⟩ := iniNext_terminated hv
          have hwsettled : (body.drop w).dropWhile (· == nul) = body.drop w := by
            rw [hwdrop, List.dropWhile_idempotent]
          have hin : Inside body (some v) := by
            rintro _ ⟨⟩
            exact hv
          split
          · -- the key is found here
            refine ⟨some v, rfl, hin, ?_⟩
            cases hvs : body.drop v with
            | nil =>
                rw [valueAt, Option.map_some, hvs]
                rfl
            | cons d ds =>
                have hd : d ≠ nul := by simpa using eq_cons_of_dropWhile (hvsettled.trans hvs)
                rw [strings_walk hd, valueAt, Option.map_some, hvs]
          · -- the walk goes on behind the value
            obtain ⟨r, hrun, hr, hvalue⟩ := ih hcur hw hwsettled (by omega)
            refine ⟨r, by simp only [hnext', Option.bind_some]; exact hrun, hr, ?_⟩
            rw [hvalue]
            cases hvs : body.drop v with
            | nil =>
                rw [hwdrop, hvs]
                rfl
            | cons d ds =>
                have hd : d ≠ nul := by simpa using eq_cons_of_dropWhile (hvsettled.trans hvs)
                rw [strings_walk hd, hwdrop, hvs]
      · rw [if_neg (show ¬p < (terminated body).fin from hlt),
          List.drop_eq_nil_of_le (Nat.le_of_not_lt hlt)]
        refine ⟨none, rfl, ?_, rfl⟩
        intro _ hmem
        cases hmem

/-- A lookup in any terminated buffer. -/
theorem iniValue_terminated (body : List Byte) (wanted : Option CString) (key : CString) :
    iniValue (terminated body) wanted key =
      some (lookup (wanted.map CString.bytes) key.bytes [] (strings body)) := by
  have hnone : Inside body none := by
    intro _ hmem
    cases hmem
  have hget : ∃ r, iniGet (terminated body) wanted key = some r ∧ Inside body r ∧
      valueAt body r = lookup (wanted.map CString.bytes) key.bytes [] (strings body) := by
    cases body with
    | nil => exact ⟨none, rfl, hnone, rfl⟩
    | cons c rest =>
        have hload : (terminated (c :: rest)).data[0]? = some c := rfl
        unfold iniGet
        rw [hload]
        simp only [Option.bind_eq_bind, Option.bind_some]
        by_cases hc : c = nul
        · obtain ⟨p, hnext, -, hp, hdrop⟩ := iniNext_terminated (Nat.zero_le (c :: rest).length)
          have hwhile : (c :: rest).dropWhile (· != nul) = c :: rest := by
            rw [List.dropWhile_cons, if_neg (by simp [hc])]
          rw [List.drop_zero, hwhile] at hdrop
          obtain ⟨r, hrun, hr, hvalue⟩ := iniGetLoop_terminated wanted key ((c :: rest).length + 1)
            hnone hp (by rw [hdrop, List.dropWhile_idempotent]) (Nat.lt_succ_of_le (Nat.sub_le _ _))
          refine ⟨r, ?_, hr, ?_⟩
          · rw [if_pos hc, hnext]
            exact hrun
          · rw [hvalue, hdrop, strings_dropWhile]
            rfl
        · obtain ⟨r, hrun, hr, hvalue⟩ := iniGetLoop_terminated wanted key ((c :: rest).length + 1)
            hnone (Nat.zero_le (c :: rest).length)
            (by rw [List.drop_zero, List.dropWhile_cons, if_neg (by simpa using hc)])
            (Nat.lt_succ_of_le (Nat.sub_le _ _))
          refine ⟨r, ?_, hr, hvalue⟩
          rw [if_neg hc]
          exact hrun
  obtain ⟨r, hrun, hr, hvalue⟩ := hget
  rw [iniValue, hrun, ← hvalue]
  cases r with
  | none => rfl
  | some p =>
      simp only [Option.bind_eq_bind, Option.bind_some, stringAt_terminated (hr p rfl)]
      rfl

end Walk

end Zelda.Proofs.IniLookup
