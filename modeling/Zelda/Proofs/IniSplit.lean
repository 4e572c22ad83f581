import Zelda.Proofs.IniLookup
/-!
# Splitting the configuration file

Splitting works in place: it overwrites what separates the strings of a file
and moves unescaped values forward in their own room.  Between two rounds the
buffer is what has been split, then the rest of the file as it was.
-/

namespace Zelda.Proofs.IniSplit

open Zelda.Vmm
open Zelda.Vmm.Ascii
open Zelda.Proofs.IniLookup

/-! ## The format -/

def isBlank (c : Byte) : Bool :=
  isSpace c || c == newline

/-- A quoted value, from behind its opening quote to the end of the line. -/
def unescape : List Byte → List Byte
  | [] => []
  | [c] => if c = quote ∨ c = carriageReturn ∨ c = backslash then [] else [c]
  | c :: d :: rest =>
      if c = quote ∨ c = carriageReturn then []
      else if c = backslash then
        if d = carriageReturn then [] else escaped d :: unescape rest
      else c :: unescape (d :: rest)

/-- The strings a line with a key and a value is split into. -/
def entryTokens (line : List Byte) : List (List Byte) :=
  let name := nonempty ((line.takeWhile (· != equals)).rdropWhile isSpace)
  match line.dropWhile (· != equals) with
  | [] => []
  | _ :: rest =>
      match rest.dropWhile isSpace with
      | [] => []
      | c :: value =>
          if c = quote then
            if unescape value = [] then [] else name ++ [unescape value]
          else name ++ [(c :: value).rdropWhile isSpace]

/-- A byte of the name of a section. -/
def inHeader (c : Byte) : Bool :=
  c != closeBracket && c != newline

/-- The strings of a file: headers of sections with their bracket, keys and values. -/
def tokenize : List Byte → List (List Byte)
  | [] => []
  | c :: rest =>
      if isBlank c then tokenize rest
      else if c = openBracket then
        (c :: rest.takeWhile inHeader) :: tokenize ((rest.dropWhile inHeader).drop 1)
      else
        (if c = semicolon then [] else entryTokens ((c :: rest).takeWhile (· != newline))) ++
          tokenize (((c :: rest).dropWhile (· != newline)).drop 1)
  termination_by file => file.length
  decreasing_by
    · exact Nat.lt_succ_self _
    · have hle := (List.dropWhile_sublist (l := rest) inHeader).length_le
      rw [List.length_drop, List.length_cons]
      omega
    · have hle := (List.dropWhile_sublist (l := c :: rest) (· != newline)).length_le
      rw [List.length_cons] at hle
      rw [List.length_drop, List.length_cons]
      omega

/-! ## Parts of a line -/

/-- What stands behind a line: nothing, or the next line. -/
def LineEnd (after : List Byte) : Prop :=
  after = [] ∨ ∃ rest, after = newline :: rest

/-- The byte behind a line. -/
theorem LineEnd.cases {after : List Byte} (h : LineEnd after) :
    ∃ c back, after ++ [nul] = c :: back ∧ (c = newline ∨ c = nul) := by
  rcases h with rfl | ⟨rest, rfl⟩
  · exact ⟨nul, [], rfl, .inr rfl⟩
  · exact ⟨newline, rest ++ [nul], rfl, .inl rfl⟩

/-- Fill bytes. -/
abbrev nuls (n : Nat) : List Byte :=
  List.replicate n nul

theorem nuls_zero : nuls 0 = [] := rfl

theorem nuls_succ (n : Nat) : nuls (n + 1) = nul :: nuls n :=
  List.replicate_succ

theorem nuls_succ_concat (n : Nat) : nuls (n + 1) = nuls n ++ [nul] :=
  List.replicate_succ'

theorem strcspn_append {reject s : List Byte} (front back : List Byte) {c : Byte}
    (hs : ∀ b ∈ s, b ≠ nul ∧ b ∉ reject) (hc : c = nul ∨ c ∈ reject) :
    strcspn (front ++ (s ++ c :: back)) front.length reject = some s.length := by
  have htake : (s ++ c :: back).takeWhile (fun c => c != nul && !reject.contains c) = s := by
    rw [List.takeWhile_append_of_pos]
    · rw [List.takeWhile_cons, if_neg, List.append_nil]
      rcases hc with rfl | hc
      · simp
      · simp [hc]
    · intro b hb
      obtain ⟨hnul, hreject⟩ := hs b hb
      simp [hnul, hreject]
  rw [strcspn, List.drop_left, htake, if_pos]
  simp only [List.length_append, List.length_cons]
  omega

theorem discardLine_append {after : List Byte} (hafter : LineEnd after) (mid front : List Byte)
    (hmid : newline ∉ mid) {fin : Nat} (rounds : Nat)
    (hfin : fin = (front ++ (mid ++ after)).length) (hrounds : mid.length < rounds) :
    discardLine fin rounds (front ++ (mid ++ (after ++ [nul]))) front.length =
      some (front ++ (nuls mid.length ++ (after ++ [nul])), front.length + mid.length) := by
  induction mid generalizing front rounds with
  | nil =>
      obtain ⟨rounds, rfl⟩ : ∃ k, rounds = k + 1 := ⟨rounds - 1, by omega⟩
      rw [discardLine]
      rcases hafter with rfl | ⟨rest, rfl⟩
      · rw [if_neg (by simp [hfin])]
        rfl
      · rw [if_pos (by simp [hfin])]
        simp only [List.nil_append, List.cons_append, load_append, Option.bind_eq_bind,
          Option.bind_some]
        rfl
  | cons c mid ih =>
      obtain ⟨rounds, rfl⟩ : ∃ k, rounds = k + 1 := ⟨rounds - 1, by omega⟩
      obtain ⟨hc, hmid⟩ := List.ne_and_not_mem_of_not_mem_cons hmid
      have hnext := ih (front ++ [nul]) hmid rounds
        (by simp [hfin]) (by simpa using hrounds)
      rw [discardLine, if_pos (by simp [hfin]), List.cons_append, load_append]
      simp only [Option.bind_eq_bind, Option.bind_some]
      rw [if_pos hc.symm, storeByte_append]
      simp only [Option.bind_some]
      simp only [List.append_assoc, List.singleton_append, List.length_append,
        List.length_singleton] at hnext
      rw [hnext, List.length_cons, nuls_succ, List.cons_append]
      congr 2
      omega

/-- `trim_back` stops where there is nothing to trim. -/
theorem trimBack_stop {front : List Byte} (back : List Byte)
    (h : front = [] ∨ ∃ f c, front = f ++ [c] ∧ isSpace c = false) :
    trimBack (front ++ back) front.length = some (front ++ back) := by
  rcases h with rfl | ⟨f, c, rfl, hc⟩
  · rfl
  · rw [List.length_append, List.length_singleton, trimBack, List.append_assoc,
      List.singleton_append, load_append]
    simp only [Option.bind_eq_bind, Option.bind_some, hc]
    rfl

theorem trimBack_spaces (front spaces back : List Byte) (hspaces : ∀ c ∈ spaces, isSpace c = true) :
    trimBack (front ++ (spaces ++ back)) (front.length + spaces.length) =
      trimBack (front ++ (nuls spaces.length ++ back)) front.length := by
  induction spaces using List.reverseRecOn generalizing back with
  | nil => rfl
  | append_singleton spaces c ih =>
      have hc : isSpace c = true := hspaces c (by simp)
      have hlength : front.length + (spaces ++ [c]).length = (front ++ spaces).length + 1 := by
        simp only [List.length_append, List.length_singleton]
        omega
      have hsplit : front ++ (spaces ++ [c] ++ back) = (front ++ spaces) ++ c :: back := by simp
      rw [hlength, hsplit, trimBack, load_append]
      simp only [Option.bind_eq_bind, Option.bind_some, hc, if_true, storeByte_append]
      rw [List.append_assoc, List.length_append,
        ih (nul :: back) fun c hmem => hspaces c (List.mem_append_left _ hmem)]
      rw [List.length_append, List.length_singleton, nuls_succ_concat, List.append_assoc,
        List.singleton_append]

/-- What is written to a region has the length of what stood there. -/
theorem trimBack_append (front s back : List Byte)
    (h : s.rdropWhile isSpace ≠ [] ∨ front = [] ∨ ∃ f, front = f ++ [nul]) :
    trimBack (front ++ (s ++ back)) (front.length + s.length) =
      some (front ++ (s.rdropWhile isSpace ++ (nuls (s.rtakeWhile isSpace).length ++ back))) := by
  have hsplit := List.rdropWhile_append_rtakeWhile (p := isSpace) (l := s)
  have hspaces : ∀ c ∈ s.rtakeWhile isSpace, isSpace c = true := by
    intro c hmem
    exact List.mem_rtakeWhile_imp hmem
  have hlength : front.length + s.length =
      (front ++ s.rdropWhile isSpace).length + (s.rtakeWhile isSpace).length := by
    conv_lhs => rw [← hsplit]
    simp only [List.length_append]
    omega
  have hbuffer : front ++ (s ++ back) =
      (front ++ s.rdropWhile isSpace) ++ (s.rtakeWhile isSpace ++ back) := by
    conv_lhs => rw [← hsplit]
    simp only [List.append_assoc]
  rw [hlength, hbuffer, trimBack_spaces _ _ _ hspaces, trimBack_stop, List.append_assoc]
  -- the last byte that stays is not a space, or there is none
  by_cases hempty : s.rdropWhile isSpace = []
  · rw [hempty, List.append_nil]
    rcases h with h | h | ⟨f, h⟩
    · exact absurd hempty h
    · exact .inl h
    · exact .inr ⟨f, nul, h, rfl⟩
  · refine .inr ⟨front ++ (s.rdropWhile isSpace).dropLast,
      (s.rdropWhile isSpace).getLast hempty, ?_, ?_⟩
    · rw [List.append_assoc, List.dropLast_append_getLast]
    · simpa using List.rdropWhile_last_not isSpace s hempty

theorem clearEquals_append (front : List Byte) (first : Byte) (spaces back : List Byte)
    (hspaces : ∀ c ∈ spaces, isSpace c = true) {c : Byte} (hc : isSpace c = false) (rounds : Nat)
    (hrounds : spaces.length < rounds) :
    clearEquals rounds (front ++ first :: (spaces ++ c :: back)) front.length =
      some (front ++ (nul :: nuls spaces.length ++ c :: back),
        front.length + 1 + spaces.length) := by
  induction spaces generalizing front first rounds with
  | nil =>
      obtain ⟨rounds, rfl⟩ : ∃ k, rounds = k + 1 := ⟨rounds - 1, by omega⟩
      have hload : (front ++ nul :: c :: back)[front.length + 1]? = some c := by
        simp
      rw [clearEquals, storeByte_append]
      simp only [Option.bind_eq_bind, Option.bind_some, List.nil_append, hload, hc]
      rfl
  | cons s spaces ih =>
      obtain ⟨rounds, rfl⟩ : ∃ k, rounds = k + 1 := ⟨rounds - 1, by omega⟩
      have hs : isSpace s = true := hspaces s (by simp)
      have hload : (front ++ nul :: s :: (spaces ++ c :: back))[front.length + 1]? = some s := by
        simp
      have hnext := ih (front ++ [nul]) s (fun c hmem => hspaces c (List.mem_cons_of_mem _ hmem))
        rounds (by simpa using hrounds)
      simp only [List.append_assoc, List.singleton_append, List.length_append,
        List.length_singleton] at hnext
      rw [clearEquals, storeByte_append]
      simp only [Option.bind_eq_bind, Option.bind_some, List.cons_append, hload, hs, if_true]
      rw [hnext, List.length_cons, nuls_succ]
      congr 2
      omega

/-! ## Quoted values -/

theorem load_behind (front room back : List Byte) (c : Byte) :
    (front ++ (room ++ c :: back))[front.length + room.length]? = some c := by
  rw [← List.append_assoc, ← List.length_append]
  exact load_append _ _ _

theorem load_second (front room back : List Byte) (c d : Byte) :
    (front ++ (room ++ c :: d :: back))[front.length + room.length + 1]? = some d := by
  have hload := load_behind front (room ++ [c]) back d
  rwa [List.append_assoc, List.singleton_append, List.length_append, List.length_singleton,
    ← Nat.add_assoc] at hload

section Rounds

variable {fin rounds q p : Nat} {data : List Byte} {c d : Byte} (hp : p < fin)
include hp

theorem unescapeLoop_stop (hload : data[p]? = some c)
    (hc : c = quote ∨ c = carriageReturn ∨ c = newline) :
    unescapeLoop fin (rounds + 1) data q p = some (data, q) := by
  rw [unescapeLoop, if_pos hp, hload]
  simp only [Option.bind_eq_bind, Option.bind_some]
  rw [if_pos hc]
  rfl

/-- A backslash at the end of a line escapes nothing. -/
theorem unescapeLoop_escape_stop (hload : data[p]? = some backslash)
    (hload' : data[p + 1]? = some d) (hd : d = carriageReturn ∨ d = newline ∨ d = nul) :
    unescapeLoop fin (rounds + 1) data q p = some (data, q) := by
  rw [unescapeLoop, if_pos hp, hload]
  simp only [Option.bind_eq_bind, Option.bind_some]
  rw [if_neg (by decide), if_pos trivial, hload']
  simp only [Option.bind_some]
  rw [if_pos hd]
  rfl

theorem unescapeLoop_escape (hload : data[p]? = some backslash) (hload' : data[p + 1]? = some d)
    (hd : ¬(d = carriageReturn ∨ d = newline ∨ d = nul)) :
    unescapeLoop fin (rounds + 1) data q p = (do
      let data ← storeByte data q (escaped d)
      unescapeLoop fin rounds data (q + 1) (p + 2)) := by
  rw [unescapeLoop, if_pos hp, hload]
  simp only [Option.bind_eq_bind, Option.bind_some]
  rw [if_neg (by decide), if_pos trivial, hload']
  simp only [Option.bind_some]
  rw [if_neg hd]

theorem unescapeLoop_plain (hload : data[p]? = some c)
    (hc : ¬(c = quote ∨ c = carriageReturn ∨ c = newline)) (hplain : c ≠ backslash) :
    unescapeLoop fin (rounds + 1) data q p = (do
      let data ← storeByte data q c
      unescapeLoop fin rounds data (q + 1) (p + 1)) := by
  rw [unescapeLoop, if_pos hp, hload]
  simp only [Option.bind_eq_bind, Option.bind_some]
  rw [if_neg hc, if_neg hplain]

end Rounds

/-- What unescaping leaves between its write head and the end of the line. -/
structure Left (left : List Byte) (size written : Nat) : Prop where
  length : left.length + written = size
  newline : newline ∉ left
  pos : 0 < left.length

/--
What unescaping `src` comes to: the write head starts behind `front` and stays
behind the read head, with `room` what has been read and not yet overwritten.
-/
def Unescapes (fin rounds : Nat) (front room src after : List Byte) : Prop :=
  ∃ left, Left left (room.length + src.length) (unescape src).length ∧
    unescapeLoop fin rounds (front ++ (room ++ (src ++ (after ++ [nul])))) front.length
        (front.length + room.length) =
      some (front ++ (unescape src ++ (left ++ (after ++ [nul]))),
        front.length + (unescape src).length)

/-- The loop ends where it stands. -/
theorem unescapes_stop {fin rounds : Nat} {front room src after : List Byte}
    (hroom : newline ∉ room) (hpos : 0 < room.length) (hline : newline ∉ src)
    (hempty : unescape src = [])
    (hrun : unescapeLoop fin rounds (front ++ (room ++ (src ++ (after ++ [nul])))) front.length
        (front.length + room.length) =
      some (front ++ (room ++ (src ++ (after ++ [nul]))), front.length)) :
    Unescapes fin rounds front room src after := by
  refine ⟨room ++ src, ⟨?_, ?_, ?_⟩, ?_⟩
  · rw [hempty, List.length_append, List.length_nil, Nat.add_zero]
  · rw [List.mem_append]
    exact not_or.mpr ⟨hroom, hline⟩
  · rw [List.length_append]
    omega
  · rw [hrun, hempty, List.nil_append, List.append_assoc, List.length_nil, Nat.add_zero]

/-- A byte, or what an escape sequence stands for, goes to the write head. -/
theorem unescapes_write {fin rounds : Nat} {front room read src after : List Byte} {r value : Byte}
    (hvalue : unescape (read ++ src) = value :: unescape src)
    (hnext : Unescapes fin rounds (front ++ [value]) (room ++ read) src after)
    (hrun : unescapeLoop fin (rounds + 1) (front ++ (r :: room ++ (read ++ src ++ (after ++ [nul]))))
        front.length (front.length + (r :: room).length) =
      (do
        let data ← storeByte (front ++ (r :: room ++ (read ++ src ++ (after ++ [nul]))))
          front.length value
        unescapeLoop fin rounds data (front.length + 1)
          (front.length + (r :: room).length + read.length))) :
    Unescapes fin (rounds + 1) front (r :: room) (read ++ src) after := by
  obtain ⟨left, hleft, hloop⟩ := hnext
  refine ⟨left, ⟨?_, hleft.newline, hleft.pos⟩, ?_⟩
  · have hlength := hleft.length
    simp only [hvalue, List.length_append, List.length_cons] at hlength ⊢
    omega
  · have hread : front.length + (r :: room).length + read.length =
        front.length + 1 + (room.length + read.length) := by
      rw [List.length_cons]
      omega
    rw [hrun, hread, hvalue, List.cons_append, storeByte_append]
    simp only [Option.bind_eq_bind, Option.bind_some]
    simp only [List.append_assoc, List.singleton_append, List.length_append,
      List.length_singleton] at hloop
    rw [List.append_assoc, hloop]
    simp only [List.cons_append, List.length_cons]
    congr 2
    omega

theorem unescapes_nil {after : List Byte} (hafter : LineEnd after) (front room : List Byte)
    (hroom : newline ∉ room) (hpos : 0 < room.length) {fin rounds : Nat}
    (hfin : fin = (front ++ (room ++ ([] ++ after))).length) (hrounds : 0 < rounds) :
    Unescapes fin rounds front room [] after := by
  obtain ⟨rounds, rfl⟩ : ∃ k, rounds = k + 1 := ⟨rounds - 1, by omega⟩
  refine unescapes_stop hroom hpos List.not_mem_nil rfl ?_
  rcases hafter with rfl | ⟨rest, rfl⟩
  · rw [unescapeLoop, if_neg (by simp [hfin])]
    rfl
  · exact unescapeLoop_stop (by simp [hfin]) (load_behind _ _ _ _) (.inr (.inr rfl))

theorem unescapeLoop_append {after : List Byte} (hafter : LineEnd after) (src : List Byte)
    (hline : newline ∉ src) (hsrc : nul ∉ src) (front room : List Byte) (hroom : newline ∉ room)
    (hpos : 0 < room.length) {fin rounds : Nat}
    (hfin : fin = (front ++ (room ++ (src ++ after))).length) (hrounds : src.length < rounds) :
    Unescapes fin rounds front room src after := by
  induction src using unescape.induct generalizing front room rounds with
  | case1 => exact unescapes_nil hafter front room hroom hpos hfin (by omega)
  | case2 c hstop =>
      obtain ⟨rounds, rfl⟩ : ∃ k, rounds = k + 1 := ⟨rounds - 1, by omega⟩
      have hp : front.length + room.length < fin := by simp [hfin]
      refine unescapes_stop hroom hpos hline (if_pos hstop) ?_
      rcases hstop with hstop | hstop | rfl
      · exact unescapeLoop_stop hp (load_behind _ _ _ _) (.inl hstop)
      · exact unescapeLoop_stop hp (load_behind _ _ _ _) (.inr (.inl hstop))
      · obtain ⟨d, back, hback, hd⟩ := hafter.cases
        rw [hback]
        exact unescapeLoop_escape_stop hp (load_behind _ _ _ _) (load_second _ _ _ _ _) (.inr hd)
  | case3 c hgoes =>
      obtain ⟨rounds, rfl⟩ : ∃ k, rounds = k + 1 := ⟨rounds - 1, by omega⟩
      obtain ⟨r, room, rfl⟩ := List.exists_cons_of_length_pos hpos
      have hp : front.length + (r :: room).length < fin := by simp [hfin]
      have hvalue : unescape ([c] ++ []) = c :: unescape [] := if_neg hgoes
      simp only [not_or] at hgoes
      simp only [List.mem_cons, List.not_mem_nil, or_false, not_or] at hline hroom
      have hc : ¬(c = quote ∨ c = carriageReturn ∨ c = newline) := by
        simp only [not_or]
        exact ⟨hgoes.1, hgoes.2.1, Ne.symm hline⟩
      refine unescapes_write hvalue (unescapes_nil hafter _ _ ?_ ?_ ?_ ?_) ?_
      · simp only [List.mem_append, List.mem_singleton, not_or]
        exact ⟨hroom.2, hline⟩
      · simp
      · simp only [hfin, List.length_append, List.length_cons, List.length_nil]
        omega
      · simp only [List.length_cons, List.length_nil] at hrounds
        omega
      · exact unescapeLoop_plain hp (load_behind _ _ _ _) hc hgoes.2.2
  | case4 c d rest hstop =>
      obtain ⟨rounds, rfl⟩ : ∃ k, rounds = k + 1 := ⟨rounds - 1, by omega⟩
      have hp : front.length + room.length < fin := by simp [hfin]
      have hempty : unescape (c :: d :: rest) = [] := by rw [unescape, if_pos hstop]
      refine unescapes_stop hroom hpos hline hempty ?_
      refine unescapeLoop_stop hp (load_behind _ _ _ _) ?_
      rcases hstop with hstop | hstop
      · exact .inl hstop
      · exact .inr (.inl hstop)
  | case5 rest hgoes =>
      obtain ⟨rounds, rfl⟩ : ∃ k, rounds = k + 1 := ⟨rounds - 1, by omega⟩
      have hp : front.length + room.length < fin := by simp [hfin]
      have hempty : unescape (backslash :: carriageReturn :: rest) = [] := by
        rw [unescape, if_neg hgoes, if_pos rfl, if_pos rfl]
      refine unescapes_stop hroom hpos hline hempty ?_
      exact unescapeLoop_escape_stop hp (load_behind _ _ _ _) (load_second _ _ _ _ _) (.inl rfl)
  | case6 d rest hd hgoes ih =>
      obtain ⟨rounds, rfl⟩ : ∃ k, rounds = k + 1 := ⟨rounds - 1, by omega⟩
      obtain ⟨r, room, rfl⟩ := List.exists_cons_of_length_pos hpos
      have hp : front.length + (r :: room).length < fin := by simp [hfin]
      have hvalue : unescape ([backslash, d] ++ rest) = escaped d :: unescape rest := by
        rw [List.cons_append, List.singleton_append, unescape, if_neg hgoes, if_pos rfl, if_neg hd]
      have hd' : ¬(d = carriageReturn ∨ d = newline ∨ d = nul) := by
        simp only [List.mem_cons, not_or] at hline hsrc
        exact fun h => h.elim hd fun h => h.elim (fun h => hline.2.1 h.symm) fun h =>
          hsrc.2.1 h.symm
      simp only [List.mem_cons, not_or] at hline hsrc hroom
      refine unescapes_write hvalue (ih hline.2.2 hsrc.2.2 _ _ ?_ ?_ ?_ ?_) ?_
      · simp only [List.mem_append, List.mem_cons, List.not_mem_nil, or_false, not_or]
        exact ⟨hroom.2, hline.1, hline.2.1⟩
      · simp
      · simp only [hfin, List.length_append, List.length_cons, List.length_nil]
        omega
      · simp only [List.length_cons] at hrounds
        omega
      · exact unescapeLoop_escape hp (load_behind _ _ _ _) (load_second _ _ _ _ _) hd'
  | case7 c d rest hgoes hplain ih =>
      obtain ⟨rounds, rfl⟩ : ∃ k, rounds = k + 1 := ⟨rounds - 1, by omega⟩
      obtain ⟨r, room, rfl⟩ := List.exists_cons_of_length_pos hpos
      have hp : front.length + (r :: room).length < fin := by simp [hfin]
      have hvalue : unescape ([c] ++ d :: rest) = c :: unescape (d :: rest) := by
        rw [List.singleton_append, unescape, if_neg hgoes, if_neg hplain]
      obtain ⟨hc, hline⟩ := List.ne_and_not_mem_of_not_mem_cons hline
      obtain ⟨-, hsrc⟩ := List.ne_and_not_mem_of_not_mem_cons hsrc
      obtain ⟨-, hroom⟩ := List.ne_and_not_mem_of_not_mem_cons hroom
      have hc' : ¬(c = quote ∨ c = carriageReturn ∨ c = newline) := by
        rw [← or_assoc]
        exact not_or.mpr ⟨hgoes, hc.symm⟩
      refine unescapes_write hvalue (ih hline hsrc _ _ ?_ ?_ ?_ ?_) ?_
      · simp only [List.mem_append, List.mem_singleton, not_or]
        exact ⟨hroom, hc⟩
      · simp
      · simp only [hfin, List.length_append, List.length_cons, List.length_nil]
        omega
      · simp only [List.length_cons] at hrounds ⊢
        omega
      · exact unescapeLoop_plain hp (load_behind _ _ _ _) hc' hplain

theorem nul_not_mem_unescape {src : List Byte} (h : nul ∉ src) : nul ∉ unescape src := by
  have hescaped : ∀ c : Byte, escaped c = nul → c = nul := by decide
  induction src using unescape.induct with
  | case1 => exact List.not_mem_nil
  | case2 c hstop =>
      rw [unescape, if_pos hstop]
      exact List.not_mem_nil
  | case3 c hgoes =>
      rw [unescape, if_neg hgoes]
      exact h
  | case4 c d rest hstop =>
      rw [unescape, if_pos hstop]
      exact List.not_mem_nil
  | case5 rest hgoes =>
      rw [unescape, if_neg hgoes, if_pos rfl, if_pos rfl]
      exact List.not_mem_nil
  | case6 d rest hd hgoes ih =>
      simp only [List.mem_cons, not_or] at h
      rw [unescape, if_neg hgoes, if_pos rfl, if_neg hd, List.mem_cons, not_or]
      exact ⟨fun heq => h.2.1 (hescaped d heq.symm).symm, ih h.2.2⟩
  | case7 c d rest hgoes hplain ih =>
      obtain ⟨hc, hrest⟩ := List.ne_and_not_mem_of_not_mem_cons h
      rw [unescape, if_neg hgoes, if_neg hplain, List.mem_cons, not_or]
      exact ⟨hc, ih hrest⟩

/-! ## A line with a key and a value -/

/-- A key, the equals sign and the blanks behind it, as splitting leaves them. -/
def cleared (name spaces : List Byte) : List Byte :=
  name.rdropWhile isSpace ++
    (nuls (name.rtakeWhile isSpace).length ++ nul :: nuls spaces.length)

section Cleared

variable {name : List Byte} (spaces : List Byte)

theorem length_cleared (name : List Byte) : (cleared name spaces).length = name.length + 1 + spaces.length := by
  have hsplit := congrArg List.length (List.rdropWhile_append_rtakeWhile (p := isSpace) (l := name))
  simp only [cleared, List.length_append, List.length_cons, List.length_replicate] at hsplit ⊢
  omega

theorem newline_not_mem_nuls (n : Nat) : newline ∉ nuls n := by
  intro hmem
  exact absurd (List.eq_of_mem_replicate hmem) (by decide)

theorem newline_not_mem_cleared (h : newline ∉ name) : newline ∉ cleared name spaces := by
  have hkey : newline ∉ name.rdropWhile isSpace :=
    fun hmem => h ((List.rdropWhile_prefix isSpace name).subset hmem)
  simp only [cleared, List.mem_append, List.mem_cons, not_or]
  exact ⟨hkey, newline_not_mem_nuls _, by decide, newline_not_mem_nuls _⟩

theorem strings_nuls_append (n : Nat) (s : List Byte) : strings (nuls n ++ s) = strings s := by
  induction n with
  | zero => rfl
  | succ n ih => rw [nuls_succ, List.cons_append, strings_nul, ih]

theorem strings_cleared (h : nul ∉ name) (s : List Byte) :
    strings (cleared name spaces ++ s) = nonempty (name.rdropWhile isSpace) ++ strings s := by
  have hkey : nul ∉ name.rdropWhile isSpace :=
    fun hmem => h ((List.rdropWhile_prefix isSpace name).subset hmem)
  have hfill : nuls (name.rtakeWhile isSpace).length ++ nul :: nuls spaces.length =
      nul :: nuls ((name.rtakeWhile isSpace).length + spaces.length) := by
    rw [← nuls_succ, ← nuls_succ, List.replicate_append_replicate]
    rfl
  rw [cleared, hfill, List.append_assoc, List.cons_append, strings_append_nul,
    strings_nuls_append, strings_of_not_mem hkey]

end Cleared

/-- A line whose strings are `tokens`, split in place behind `done`. -/
def SplitsTo (run : Option (List Byte × Nat)) (done line after : List Byte)
    (tokens : List (List Byte)) : Prop :=
  ∃ line', line'.length = line.length ∧ strings line' = tokens ∧
    run = some (done ++ (line' ++ (after ++ [nul])), done.length + line.length)

/-- A line that is discarded. -/
theorem splitsTo_discard {fin : Nat} {done line mid after : List Byte} (hafter : LineEnd after)
    (hmid : newline ∉ mid) (hlength : mid.length = line.length)
    (hfin : fin = (done ++ (line ++ after)).length) :
    SplitsTo (discardLine fin (fin + 1) (done ++ (mid ++ (after ++ [nul]))) done.length) done line
      after [] := by
  refine ⟨nuls line.length, List.length_replicate, strings_replicate _, ?_⟩
  rw [discardLine_append hafter mid done hmid (fin + 1), hlength]
  · rw [hfin, List.length_append, List.length_append, List.length_append, List.length_append,
      hlength]
  · rw [hfin, List.length_append, List.length_append, hlength]
    omega

section Entry

variable {fin : Nat} {done name spaces after : List Byte} (hafter : LineEnd after)
  (hname : newline ∉ name) (hname' : nul ∉ name)
include hafter hname hname'

/-- A quoted value. -/
theorem splitsTo_quoted {src : List Byte} (hsrc : newline ∉ src) (hsrc' : nul ∉ src)
    (hfin : fin = (done ++ (name ++ equals :: (spaces ++ quote :: src) ++ after)).length) :
    SplitsTo
      (splitValue fin (done ++ (cleared name spaces ++ (quote :: src ++ (after ++ [nul]))))
        done.length (done.length + (cleared name spaces).length))
      done (name ++ equals :: (spaces ++ quote :: src)) after
      (if unescape src = [] then []
        else nonempty (name.rdropWhile isSpace) ++ [unescape src]) := by
  have hlength := length_cleared spaces name
  have hsize : fin = (done ++ (cleared name spaces ++ (quote :: src ++ after))).length := by
    simp only [hfin, List.length_append, List.length_cons, hlength]
    omega
  obtain ⟨left, hleft, hrun⟩ : Unescapes fin (fin + 1) (done ++ cleared name spaces) [quote] src
      after := by
    apply unescapeLoop_append hafter src hsrc hsrc'
    · decide
    · decide
    · simp only [hsize, List.append_assoc, List.cons_append, List.nil_append]
    · simp only [hsize, List.length_append, List.length_cons]
      omega
  have hpos := hleft.pos
  have hsum := hleft.length
  rw [List.length_singleton] at hsum hrun
  rw [List.append_assoc, List.append_assoc, List.singleton_append, List.length_append] at hrun
  unfold splitValue unescapeQuotedValue
  rw [List.cons_append, load_behind]
  simp only [Option.bind_eq_bind, Option.bind_some]
  rw [if_neg (by decide), if_pos trivial, hrun]
  simp only [Option.bind_some]
  by_cases hempty : unescape src = []
  · -- an empty string: the whole line goes
    rw [hempty, List.length_nil, Nat.add_zero] at hsum
    rw [hempty, List.length_nil, Nat.add_zero, if_pos rfl, if_pos rfl, List.nil_append,
      ← List.append_assoc (cleared name spaces)]
    refine splitsTo_discard hafter ?_ ?_ hfin
    · rw [List.mem_append, not_or]
      exact ⟨newline_not_mem_cleared spaces hname, hleft.newline⟩
    · simp only [List.length_append, List.length_cons, hlength, hsum]
      omega
  · have hne : done.length + (cleared name spaces).length + (unescape src).length ≠
        done.length + (cleared name spaces).length := by
      have hpositive := List.length_pos_iff.mpr hempty
      omega
    have hdiscard := discardLine_append hafter left (done ++ (cleared name spaces ++ unescape src))
      hleft.newline (fin + 1)
      (show fin = _ by simp only [hsize, List.length_append, List.length_cons]; omega)
      (by simp only [hsize, List.length_append, List.length_cons]; omega)
    simp only [List.append_assoc, List.length_append] at hdiscard
    rw [if_neg hne, if_neg hempty, Nat.add_assoc, hdiscard]
    refine ⟨cleared name spaces ++ (unescape src ++ nuls left.length), ?_, ?_, ?_⟩
    · simp only [List.length_append, List.length_cons, List.length_replicate, hlength]
      omega
    · obtain ⟨k, hk⟩ : ∃ k, left.length = k + 1 := ⟨left.length - 1, by omega⟩
      rw [strings_cleared spaces hname', hk, nuls_succ, strings_append_nul,
        strings_of_not_mem (nul_not_mem_unescape hsrc'), strings_replicate,
        nonempty_of_ne hempty, List.append_nil]
    · simp only [List.append_assoc, List.length_append, List.length_cons, hlength]
      congr 2
      omega

omit hname in
/-- A plain value. -/
theorem splitsTo_plain {c : Byte} {value : List Byte} (hvalue : newline ∉ c :: value)
    (hvalue' : nul ∉ c :: value) (hquote : c ≠ quote) (hspace : isSpace c = false) :
    SplitsTo
      (splitValue fin (done ++ (cleared name spaces ++ (c :: value ++ (after ++ [nul]))))
        done.length (done.length + (cleared name spaces).length))
      done (name ++ equals :: (spaces ++ c :: value)) after
      (nonempty (name.rdropWhile isSpace) ++ [(c :: value).rdropWhile isSpace]) := by
  have hlength := length_cleared spaces name
  have hstop : ¬(c = newline ∨ c = nul) := by
    simp only [List.mem_cons, not_or] at hvalue hvalue' ⊢
    exact ⟨Ne.symm hvalue.1, Ne.symm hvalue'.1⟩
  have htrimmed : (c :: value).rdropWhile isSpace ≠ [] := by
    intro hempty
    have hall := List.rdropWhile_eq_nil_iff.mp hempty c List.mem_cons_self
    rw [hspace] at hall
    cases hall
  obtain ⟨d, back, hback, hd⟩ := hafter.cases
  have hcount : strcspn (done ++ (cleared name spaces ++ (c :: value ++ (after ++ [nul]))))
      (done.length + (cleared name spaces).length) [newline] = some (c :: value).length := by
    rw [← List.append_assoc, ← List.length_append, hback]
    apply strcspn_append
    · intro b hb
      refine ⟨fun heq => hvalue' (heq ▸ hb), ?_⟩
      rw [List.mem_singleton]
      exact fun heq => hvalue (heq ▸ hb)
    · rw [List.mem_singleton]
      exact hd.symm
  have htrim := trimBack_append (done ++ cleared name spaces) (c :: value)
    (after ++ [nul]) (.inl htrimmed)
  rw [List.append_assoc, List.append_assoc, List.length_append] at htrim
  have hload : (done ++ (cleared name spaces ++ (c :: value ++ (after ++ [nul]))))[
      done.length + (cleared name spaces).length]? = some c := load_behind _ _ _ _
  unfold splitValue
  rw [hload]
  simp only [Option.bind_eq_bind, Option.bind_some]
  rw [if_neg hstop, if_neg hquote, hcount]
  simp only [Option.bind_some]
  rw [htrim]
  have hsum := congrArg List.length
    (List.rdropWhile_append_rtakeWhile (p := isSpace) (l := c :: value))
  rw [List.length_append] at hsum
  refine ⟨cleared name spaces ++ ((c :: value).rdropWhile isSpace ++
    nuls ((c :: value).rtakeWhile isSpace).length), ?_, ?_, ?_⟩
  · simp only [List.length_append, List.length_cons, List.length_replicate, hlength] at hsum ⊢
    omega
  · have hfree : nul ∉ (c :: value).rdropWhile isSpace :=
      fun hmem => hvalue' ((List.rdropWhile_prefix isSpace (c :: value)).subset hmem)
    have hstrings : strings ((c :: value).rdropWhile isSpace ++
        nuls ((c :: value).rtakeWhile isSpace).length) = [(c :: value).rdropWhile isSpace] := by
      cases ((c :: value).rtakeWhile isSpace).length with
      | zero => rw [nuls_zero, List.append_nil, strings_of_not_mem hfree,
          nonempty_of_ne htrimmed]
      | succ k =>
          rw [nuls_succ, strings_append_nul, strings_of_not_mem hfree, strings_replicate,
            nonempty_of_ne htrimmed, List.append_nil]
    rw [strings_cleared spaces hname', hstrings]
  · simp only [Option.bind_some, List.append_assoc, List.length_append, List.length_cons, hlength]
    show some _ = some _
    congr 2
    omega

omit hname' in
/-- No value at all. -/
theorem splitsTo_missing
    (hfin : fin = (done ++ (name ++ equals :: spaces ++ after)).length) :
    SplitsTo
      (splitValue fin (done ++ (cleared name spaces ++ (after ++ [nul]))) done.length
        (done.length + (cleared name spaces).length))
      done (name ++ equals :: spaces) after [] := by
  obtain ⟨d, back, hback, hd⟩ := hafter.cases
  have hload : (done ++ (cleared name spaces ++ (after ++ [nul])))[
      done.length + (cleared name spaces).length]? = some d := by
    rw [hback]
    exact load_behind _ _ _ _
  unfold splitValue
  rw [hload]
  simp only [Option.bind_eq_bind, Option.bind_some]
  rw [if_pos hd]
  refine splitsTo_discard hafter (newline_not_mem_cleared spaces hname) ?_ hfin
  rw [length_cleared, List.length_append, List.length_cons]
  omega

omit hname hname' in
/-- Up to the value, the name is trimmed and the equals sign cleared. -/
theorem splitEntry_equals {value : List Byte} (hnewline : newline ∉ name) (hnul : nul ∉ name)
    (hequals : equals ∉ name) (hspaces : ∀ c ∈ spaces, isSpace c = true)
    (hvalue : ∀ c rest, value = c :: rest → isSpace c = false)
    (htrim : name.rdropWhile isSpace ≠ [] ∨ done = [] ∨ ∃ f, done = f ++ [nul])
    (hfin : fin = (done ++ (name ++ equals :: (spaces ++ value) ++ after)).length) :
    splitEntry fin (done ++ (name ++ equals :: (spaces ++ value) ++ (after ++ [nul]))) done.length =
      splitValue fin (done ++ (cleared name spaces ++ (value ++ (after ++ [nul])))) done.length
        (done.length + (cleared name spaces).length) := by
  -- what stands behind the blanks is no blank
  obtain ⟨c, back, hback, hc⟩ : ∃ c back, value ++ (after ++ [nul]) = c :: back ∧
      isSpace c = false := by
    cases value with
    | nil =>
        obtain ⟨d, back, hback, hd⟩ := hafter.cases
        refine ⟨d, back, hback, ?_⟩
        rcases hd with rfl | rfl <;> rfl
    | cons c rest => exact ⟨c, _, rfl, hvalue c rest rfl⟩
  have hbuffer : done ++ (name ++ equals :: (spaces ++ value) ++ (after ++ [nul])) =
      done ++ (name ++ equals :: (spaces ++ c :: back)) := by
    rw [← hback]
    simp only [List.append_assoc, List.cons_append]
  have hcount : strcspn (done ++ (name ++ equals :: (spaces ++ c :: back))) done.length
      [equals, newline] = some name.length := by
    apply strcspn_append
    · intro b hb
      simp only [List.mem_cons, List.not_mem_nil, or_false, not_or]
      exact ⟨fun heq => hnul (heq ▸ hb), fun heq => hequals (heq ▸ hb),
        fun heq => hnewline (heq ▸ hb)⟩
    · exact .inr List.mem_cons_self
  have htrimmed := trimBack_append done name (equals :: (spaces ++ c :: back)) htrim
  have hclear := clearEquals_append
    (done ++ (name.rdropWhile isSpace ++ nuls (name.rtakeWhile isSpace).length)) equals spaces back
    hspaces hc (fin + 1) (by
      simp only [hfin, List.length_append, List.length_cons]
      omega)
  have hwhere : done.length + name.length =
      (done ++ (name.rdropWhile isSpace ++ nuls (name.rtakeWhile isSpace).length)).length := by
    have hsum := congrArg List.length (List.rdropWhile_append_rtakeWhile (p := isSpace) (l := name))
    simp only [List.length_append, List.length_replicate] at hsum ⊢
    omega
  unfold splitEntry
  rw [hbuffer, hcount]
  simp only [Option.bind_eq_bind, Option.bind_some]
  rw [load_behind]
  simp only [Option.bind_some]
  rw [if_neg (not_not.mpr rfl), htrimmed]
  simp only [Option.bind_some]
  rw [hwhere, ← List.append_assoc (name.rdropWhile isSpace), ← List.append_assoc done, hclear]
  simp only [Option.bind_some, ← hwhere, hback]
  congr 1
  · simp only [cleared, List.append_assoc, List.cons_append]
  · rw [length_cleared]
    omega

end Entry

/-- A line with a key and a value, or one that is discarded. -/
theorem splitEntry_append {fin : Nat} {done line after : List Byte} (hafter : LineEnd after)
    (hnewline : newline ∉ line) (hnul : nul ∉ line) {c : Byte} {rest : List Byte}
    (hline : line = c :: rest) (hc : isSpace c = false)
    (hdone : done = [] ∨ ∃ f, done = f ++ [nul])
    (hfin : fin = (done ++ (line ++ after)).length) :
    SplitsTo (splitEntry fin (done ++ (line ++ (after ++ [nul]))) done.length) done line after
      (entryTokens line) := by
  have hsplit := List.takeWhile_append_dropWhile (p := (· != equals)) (l := line)
  have hequals : equals ∉ line.takeWhile (· != equals) := by
    intro hmem
    simpa using List.mem_takeWhile_imp hmem
  unfold entryTokens
  cases hafterName : line.dropWhile (· != equals) with
  | nil =>
      -- no equals sign: the line goes
      rw [hafterName, List.append_nil] at hsplit
      rw [hsplit] at hequals
      obtain ⟨d, back, hback, hd⟩ := hafter.cases
      have hcount : strcspn (done ++ (line ++ (after ++ [nul]))) done.length [equals, newline] =
          some line.length := by
        rw [hback]
        apply strcspn_append
        · intro b hb
          simp only [List.mem_cons, List.not_mem_nil, or_false, not_or]
          exact ⟨fun heq => hnul (heq ▸ hb), fun heq => hequals (heq ▸ hb),
            fun heq => hnewline (heq ▸ hb)⟩
        · rcases hd with rfl | rfl
          · exact .inr (by decide)
          · exact .inl rfl
      have hload : (done ++ (line ++ (after ++ [nul])))[done.length + line.length]? = some d := by
        rw [hback]
        exact load_behind _ _ _ _
      have hne : d ≠ equals := by
        rcases hd with rfl | rfl <;> decide
      unfold splitEntry
      rw [hcount]
      simp only [Option.bind_eq_bind, Option.bind_some]
      rw [hload]
      simp only [Option.bind_some]
      rw [if_pos hne]
      exact splitsTo_discard hafter hnewline rfl hfin
  | cons e behind =>
      obtain rfl : e = equals := by simpa using eq_cons_of_dropWhile hafterName
      set name := line.takeWhile (· != equals)
      have hblanks := List.takeWhile_append_dropWhile (p := isSpace) (l := behind)
      have hspaces : ∀ c ∈ behind.takeWhile isSpace, isSpace c = true :=
        fun c hmem => List.mem_takeWhile_imp hmem
      set spaces := behind.takeWhile isSpace
      rw [hafterName, ← hblanks] at hsplit
      have hfree : ∀ b, b ∉ line → b ∉ name ∧ b ∉ behind.dropWhile isSpace := by
        intro b hb
        rw [← hsplit] at hb
        simp only [List.mem_append, List.mem_cons, not_or] at hb
        exact ⟨hb.1, hb.2.2.2⟩
      have htrim : name.rdropWhile isSpace ≠ [] ∨ done = [] ∨ ∃ f, done = f ++ [nul] := by
        by_cases hempty : name = []
        · exact .inr hdone
        · refine .inl fun hnil => ?_
          have hfirst : c ∈ name := by
            obtain ⟨d, ds, hname⟩ := List.exists_cons_of_ne_nil hempty
            rw [hname, hline, List.cons_append, List.cons.injEq] at hsplit
            rw [hname, hsplit.1]
            exact List.mem_cons_self
          have hall := List.rdropWhile_eq_nil_iff.mp hnil c hfirst
          rw [hc] at hall
          cases hall
      have hvalue : ∀ c rest, behind.dropWhile isSpace = c :: rest → isSpace c = false :=
        fun c rest hcons => eq_cons_of_dropWhile hcons
      have hname := (hfree _ hnewline).1
      have hname' := (hfree _ hnul).1
      rw [← hsplit] at hfin ⊢
      rw [splitEntry_equals hafter hname hname' hequals hspaces hvalue htrim hfin]
      cases hcase : behind.dropWhile isSpace with
      | nil =>
          rw [hcase, List.append_nil] at hfin
          simp only [hcase, List.append_nil, List.nil_append]
          exact splitsTo_missing hafter hname hfin
      | cons v value =>
          have hv := (hfree _ hnewline).2
          have hv' := (hfree _ hnul).2
          rw [hcase] at hfin hv hv'
          simp only [hcase]
          by_cases hquote : v = quote
          · subst hquote
            rw [if_pos rfl]
            exact splitsTo_quoted hafter hname hname' (List.ne_and_not_mem_of_not_mem_cons hv).2
              (List.ne_and_not_mem_of_not_mem_cons hv').2 hfin
          · rw [if_neg hquote]
            exact splitsTo_plain hafter hname' hv hv' hquote (hvalue v value hcase)

/-! ## The whole file -/

/-- What is left of the file, split behind `done` in any number of rounds that is enough. -/
def SplitsRest (fin : Nat) (done todo : List Byte) (tokens : List (List Byte)) : Prop :=
  ∀ rounds, todo.length < rounds → ∃ out, out.length = todo.length ∧ strings out = tokens ∧
    splitLoop fin rounds (done ++ (todo ++ [nul])) done.length = some (done ++ (out ++ [nul]))

theorem splitsRest_nil {fin : Nat} {done : List Byte} (hfin : fin = done.length) :
    SplitsRest fin done [] [] := by
  intro rounds hrounds
  obtain ⟨rounds, rfl⟩ : ∃ k, rounds = k + 1 := ⟨rounds - 1, by omega⟩
  refine ⟨[], rfl, rfl, ?_⟩
  rw [splitLoop, if_neg (by omega)]
  rfl

/-- A round that clears one byte. -/
theorem splitRound_blank (fin : Nat) (front back : List Byte) {c : Byte}
    (hc : isBlank c = true ∨ c = nul) :
    splitRound fin (front ++ c :: back) front.length =
      some (front ++ nul :: back, front.length + 1) := by
  rw [splitRound, load_append]
  simp only [Option.bind_eq_bind, Option.bind_some]
  by_cases hnul : c = nul
  · subst hnul
    rw [if_neg (by decide), if_pos rfl]
    rfl
  · have hblank : c = carriageReturn ∨ c = newline ∨ c = tab ∨ c = space := by
      have hc := hc.resolve_right hnul
      simp only [isBlank, isSpace, Bool.or_eq_true, beq_iff_eq] at hc
      tauto
    rw [if_pos hblank, storeByte_append]
    rfl

theorem splitLoop_succ {fin rounds : Nat} {data : List Byte} {p : Nat} (hp : p < fin) :
    splitLoop fin (rounds + 1) data p = (do
      let (data, p) ← splitRound fin data p
      splitLoop fin rounds data p) := by
  rw [splitLoop, if_pos hp]

theorem splitsRest_blank {fin : Nat} {done rest : List Byte} {tokens : List (List Byte)} {c : Byte}
    (hc : isBlank c = true ∨ c = nul) (hfin : fin = (done ++ c :: rest).length)
    (hrest : SplitsRest fin (done ++ [nul]) rest tokens) :
    SplitsRest fin done (c :: rest) tokens := by
  intro rounds hrounds
  obtain ⟨rounds, rfl⟩ : ∃ k, rounds = k + 1 := ⟨rounds - 1, by omega⟩
  obtain ⟨out, hlength, hstrings, hrun⟩ := hrest rounds (by simpa using hrounds)
  refine ⟨nul :: out, by rw [List.length_cons, List.length_cons, hlength], hstrings, ?_⟩
  rw [splitLoop_succ (by simp [hfin]), List.cons_append, splitRound_blank fin _ _ hc]
  simp only [List.append_assoc, List.singleton_append, List.length_append,
    List.length_singleton] at hrun
  exact hrun

/-- One round splits a line; the byte behind it is cleared in the next. -/
theorem splitsRest_line {fin : Nat} {done line line' after after' : List Byte}
    {tokens : List (List Byte)} (hpos : 0 < line.length) (hlength : line'.length = line.length)
    (hlength' : after'.length = after.length)
    (hrest : (after' = [] ∧ tokens = []) ∨ ∃ c rest, after' = c :: rest ∧
      (isBlank c = true ∨ c = nul) ∧ SplitsRest fin (done ++ (line' ++ [nul])) rest tokens)
    (hfin : fin = (done ++ (line ++ after)).length)
    (hround : splitRound fin (done ++ (line ++ (after ++ [nul]))) done.length =
      some (done ++ (line' ++ (after' ++ [nul])), done.length + line.length)) :
    SplitsRest fin done (line ++ after) (strings line' ++ tokens) := by
  intro rounds hrounds
  rw [List.length_append] at hrounds
  obtain ⟨rounds, rfl⟩ : ∃ k, rounds = k + 2 := ⟨rounds - 2, by omega⟩
  have hp : done.length < fin := by
    simp only [hfin, List.length_append]
    omega
  rw [splitLoop_succ hp, List.append_assoc, hround]
  simp only [Option.bind_eq_bind, Option.bind_some]
  rcases hrest with ⟨rfl, rfl⟩ | ⟨c, rest, rfl, hc, hrest⟩
  · -- the file ends with the line
    obtain rfl := List.eq_nil_of_length_eq_zero hlength'.symm
    refine ⟨line', by rw [hlength, List.append_nil], (List.append_nil _).symm, ?_⟩
    rw [splitLoop, if_neg (by simp [hfin])]
    rfl
  · rw [List.length_cons] at hlength'
    obtain ⟨out, hout, hstrings, hrun⟩ := hrest rounds (by omega)
    have hbuffer : done ++ (line' ++ (c :: rest ++ [nul])) =
        (done ++ line') ++ c :: (rest ++ [nul]) := by
      simp only [List.append_assoc, List.cons_append]
    have hwhere : done.length + line.length = (done ++ line').length := by
      rw [List.length_append, hlength]
    have hbehind : (done ++ line').length < fin := by
      simp only [hfin, List.length_append, hlength]
      omega
    refine ⟨line' ++ nul :: out, ?_, ?_, ?_⟩
    · simp only [List.length_append, List.length_cons, hlength, hout]
      omega
    · rw [strings_append_nul, hstrings]
    · rw [hbuffer, hwhere, splitLoop_succ hbehind, splitRound_blank fin _ _ hc]
      simp only [Option.bind_eq_bind, Option.bind_some]
      simp only [List.append_assoc, List.singleton_append, List.length_append,
        List.length_singleton, ← Nat.add_assoc] at hrun
      rw [List.length_append, List.append_assoc, hrun, List.append_assoc, List.cons_append]

/-- What the byte behind a header is replaced by. -/
def closed : List Byte → List Byte
  | [] => []
  | _ :: rest => nul :: rest

theorem splitRound_header {fin : Nat} {done name after : List Byte}
    (hname : ∀ b ∈ name, b ≠ nul ∧ inHeader b = true)
    (hafter : ∀ c rest, after = c :: rest → inHeader c = false) :
    splitRound fin (done ++ (openBracket :: name ++ (after ++ [nul]))) done.length =
      some (done ++ (openBracket :: name ++ (closed after ++ [nul])),
        done.length + (openBracket :: name).length) := by
  obtain ⟨c, back, hback, hc, hstore⟩ : ∃ c back, after ++ [nul] = c :: back ∧
      (c = nul ∨ c ∈ [closeBracket, newline]) ∧ closed after ++ [nul] = nul :: back := by
    cases after with
    | nil => exact ⟨nul, [], rfl, .inl rfl, rfl⟩
    | cons c rest =>
        have hc := hafter c rest rfl
        simp only [inHeader, Bool.and_eq_false_iff, bne_eq_false_iff_eq] at hc
        exact ⟨c, rest ++ [nul], rfl, .inr (by simpa using hc), rfl⟩
  have hcount : strcspn (done ++ (openBracket :: name ++ c :: back)) done.length
      [closeBracket, newline] = some (openBracket :: name).length := by
    apply strcspn_append
    · intro b hb
      rcases List.mem_cons.mp hb with rfl | hb
      · decide
      · have hb' := (hname b hb).2
        simp only [inHeader, Bool.and_eq_true, bne_iff_ne] at hb'
        simpa [hb'.1, hb'.2] using (hname b hb).1
    · exact hc
  have hclose := storeByte_append (done ++ openBracket :: name) back c nul
  rw [List.append_assoc, List.append_assoc, List.length_append] at hclose
  rw [splitRound, List.cons_append, load_append]
  simp only [Option.bind_eq_bind, Option.bind_some]
  rw [if_neg (by decide), if_neg (by decide), if_pos trivial, ← List.cons_append, hback, hcount]
  simp only [Option.bind_some]
  rw [hclose, hstore]
  rfl

/-- A line that is neither blank nor a header. -/
theorem splitRound_line {fin : Nat} {done after : List Byte} {c : Byte} {rest : List Byte}
    (hafter : LineEnd after) (hnewline : newline ∉ c :: rest) (hnul : nul ∉ c :: rest)
    (hblank : isBlank c = false) (hopen : c ≠ openBracket)
    (hdone : done = [] ∨ ∃ f, done = f ++ [nul])
    (hfin : fin = (done ++ (c :: rest ++ after)).length) :
    SplitsTo (splitRound fin (done ++ (c :: rest ++ (after ++ [nul]))) done.length) done (c :: rest)
      after (if c = semicolon then [] else entryTokens (c :: rest)) := by
  have hspace : isSpace c = false := by
    rw [isBlank, Bool.or_eq_false_iff] at hblank
    exact hblank.1
  have hne : ¬(c = carriageReturn ∨ c = newline ∨ c = tab ∨ c = space) := by
    intro h
    rcases h with rfl | rfl | rfl | rfl <;> cases hblank
  have hnul' : c ≠ nul := (List.ne_and_not_mem_of_not_mem_cons hnul).1.symm
  have hload : (done ++ (c :: rest ++ (after ++ [nul])))[done.length]? = some c :=
    load_append _ _ _
  unfold splitRound
  rw [hload]
  simp only [Option.bind_eq_bind, Option.bind_some]
  rw [if_neg hne, if_neg hnul', if_neg hopen]
  by_cases hsemicolon : c = semicolon
  · rw [if_pos hsemicolon, if_pos hsemicolon]
    exact splitsTo_discard hafter hnewline rfl hfin
  · rw [if_neg hsemicolon, if_neg hsemicolon]
    exact splitEntry_append hafter hnewline hnul rfl hspace hdone hfin

/-- Splitting a file leaves its strings. -/
theorem splitLoop_tokenize (todo : List Byte) {fin : Nat} {done : List Byte} (hnul : nul ∉ todo)
    (hdone : done = [] ∨ ∃ f, done = f ++ [nul]) (hfin : fin = (done ++ todo).length) :
    SplitsRest fin done todo (tokenize todo) := by
  induction todo using tokenize.induct generalizing done with
  | case1 =>
      rw [tokenize]
      exact splitsRest_nil (by simpa using hfin)
  | case2 c rest hblank ih =>
      rw [tokenize, if_pos hblank]
      refine splitsRest_blank (.inl hblank) hfin ?_
      apply ih (List.ne_and_not_mem_of_not_mem_cons hnul).2 (.inr ⟨done, rfl⟩)
      simp only [hfin, List.length_append, List.length_cons, List.length_nil]
      omega
  | case3 rest hblank ih =>
      obtain ⟨-, hrest⟩ := List.ne_and_not_mem_of_not_mem_cons hnul
      rw [tokenize, if_neg hblank, if_pos rfl]
      have hsplit := List.takeWhile_append_dropWhile (p := inHeader) (l := rest)
      have hname : ∀ b ∈ rest.takeWhile inHeader, b ≠ nul ∧ inHeader b = true := by
        intro b hb
        refine ⟨fun heq => hrest ?_, List.mem_takeWhile_imp hb⟩
        exact heq ▸ (List.takeWhile_sublist inHeader).subset hb
      have hafter : ∀ c back, rest.dropWhile inHeader = c :: back → inHeader c = false :=
        fun c back hcons => eq_cons_of_dropWhile hcons
      have hback : nul ∉ rest.dropWhile inHeader := fun hmem =>
        hrest ((List.dropWhile_sublist inHeader).subset hmem)
      generalize rest.takeWhile inHeader = name at *
      generalize rest.dropWhile inHeader = after at *
      subst hsplit
      have hstrings : strings (openBracket :: name) = [openBracket :: name] := by
        rw [strings_of_not_mem, nonempty_of_ne (List.cons_ne_nil _ _)]
        intro hmem
        rcases List.mem_cons.mp hmem with hopen | hmem
        · cases hopen
        · exact (hname nul hmem).1 rfl
      have hline : SplitsRest fin done (openBracket :: name ++ after)
          (strings (openBracket :: name) ++ tokenize (after.drop 1)) := by
        refine splitsRest_line (Nat.succ_pos _) rfl ?_ ?_ hfin (splitRound_header hname hafter)
        · cases after <;> rfl
        cases after with
        | nil => exact .inl ⟨rfl, by rw [List.drop_nil, tokenize]⟩
        | cons d back =>
            obtain ⟨-, hback⟩ := List.ne_and_not_mem_of_not_mem_cons hback
            refine .inr ⟨nul, back, rfl, .inr rfl, ?_⟩
            apply ih hback (.inr ⟨_, (List.append_assoc ..).symm⟩)
            simp only [hfin, List.length_append, List.length_cons, List.length_nil, List.drop_one,
              List.tail_cons]
            omega
      rwa [hstrings] at hline
  | case4 c rest hblank hopen ih =>
      rw [tokenize, if_neg hblank, if_neg hopen]
      have hsplit := List.takeWhile_append_dropWhile (p := (· != newline)) (l := c :: rest)
      have hc : c ≠ newline := by
        rintro rfl
        exact hblank rfl
      have hcons : (c :: rest).takeWhile (· != newline) = c :: rest.takeWhile (· != newline) := by
        rw [List.takeWhile_cons, if_pos (by simpa using hc)]
      have hnewline : newline ∉ (c :: rest).takeWhile (· != newline) := by
        intro hmem
        simpa using List.mem_takeWhile_imp hmem
      have hafter : LineEnd ((c :: rest).dropWhile (· != newline)) := by
        cases hdrop : (c :: rest).dropWhile (· != newline) with
        | nil => exact .inl rfl
        | cons d back =>
            obtain rfl : d = newline := by simpa using eq_cons_of_dropWhile hdrop
            exact .inr ⟨back, rfl⟩
      have hback : nul ∉ (c :: rest).dropWhile (· != newline) := fun hmem =>
        hnul ((List.dropWhile_sublist _).subset hmem)
      have hfree : nul ∉ (c :: rest).takeWhile (· != newline) := fun hmem =>
        hnul ((List.takeWhile_sublist _).subset hmem)
      generalize (c :: rest).dropWhile (· != newline) = after at *
      rw [hcons] at hsplit hnewline hfree ⊢
      generalize rest.takeWhile (· != newline) = line at *
      rw [← hsplit] at hfin ⊢
      obtain ⟨line', hlength, hstrings, hrun⟩ := splitRound_line hafter hnewline hfree
        (Bool.eq_false_iff.mpr hblank) hopen hdone hfin
      rw [← hstrings]
      refine splitsRest_line (Nat.succ_pos _) hlength rfl ?_ hfin hrun
      rcases hafter with rfl | ⟨back, rfl⟩
      · exact .inl ⟨rfl, by rw [List.drop_nil, tokenize]⟩
      · obtain ⟨-, hback⟩ := List.ne_and_not_mem_of_not_mem_cons hback
        refine .inr ⟨newline, back, rfl, .inl rfl, ?_⟩
        apply ih hback (.inr ⟨_, (List.append_assoc ..).symm⟩)
        simp only [hfin, List.length_append, List.length_cons, List.length_nil, List.drop_one,
          List.tail_cons, hlength]
        omega

/-- A file is split into its strings, in room of the same size. -/
theorem splitData_tokenize {file : List Byte} (h : nul ∉ file) :
    ∃ body, splitData (Ini.ofFile file) = some (terminated body) ∧
      strings body = tokenize file := by
  obtain ⟨body, hlength, hstrings, hrun⟩ :=
    splitLoop_tokenize file h (.inl rfl) rfl (file.length + 1) (Nat.lt_succ_self _)
  refine ⟨body, ?_, hstrings⟩
  rw [splitData, Ini.ofFile, terminated, hlength]
  rw [List.nil_append, List.nil_append, List.length_nil] at hrun
  simp only [hrun, Option.bind_eq_bind, Option.bind_some]
  rfl

end Zelda.Proofs.IniSplit
