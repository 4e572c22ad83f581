import Zelda.Proofs.IniSafety
import Zelda.Proofs.IniSplit
/-!
# Configuration files

What a file without terminators says, and that a file written from a list of
sections and entries is read back as that list.
-/

namespace Zelda.Proofs.IniFile

open Zelda.Vmm
open Zelda.Vmm.Ascii
open Zelda.Proofs.IniLookup
open Zelda.Proofs.IniSafety
open Zelda.Proofs.IniSplit

/-- A lookup in a loaded file goes by the strings of the file. -/
theorem lookup_loaded {file : List Byte} (h : nul ∉ file) (hsize : file.length + 1 < 2 ^ 31) :
    ∃ ini, iniLoad (some (.regular file)) = some (some ini) ∧ ∀ (wanted : Option CString) (key : CString),
      iniValue ini wanted key =
        some (lookup (wanted.map CString.bytes) key.bytes [] (tokenize file)) := by
  obtain ⟨body, hsplit, hstrings⟩ := splitData_tokenize h
  refine ⟨terminated body, ?_, fun wanted key => ?_⟩
  · rw [iniLoad_regular hsize, hsplit, Option.map_some]
  · rw [iniValue_terminated, hstrings]

/-- The lines `[cpu]` and `n = 4`. -/
theorem lookup_loaded_cpu :
    ∃ ini, iniLoad (some (.regular
        [0x5b, 0x63, 0x70, 0x75, 0x5d, 0x0a, 0x6e, 0x20, 0x3d, 0x20, 0x34, 0x0a])) =
        some (some ini) ∧ ∀ (wanted : Option CString) (key : CString),
      iniValue ini wanted key =
        some (lookup (wanted.map CString.bytes) key.bytes []
          (tokenize [0x5b, 0x63, 0x70, 0x75, 0x5d, 0x0a, 0x6e, 0x20, 0x3d, 0x20, 0x34, 0x0a])) :=
  lookup_loaded (by decide) (by decide)

/-! ## Writing a file -/

/-- Text on one line. -/
structure Text where
  bytes : List Byte
  noNul : nul ∉ bytes
  noNewline : newline ∉ bytes
  deriving DecidableEq

/-- The name of a section. -/
structure SectionName extends Text where
  noBracket : closeBracket ∉ bytes
  deriving DecidableEq

/-- Text that trimming leaves as it is. -/
structure Word extends Text where
  nonempty : bytes ≠ []
  first : ∀ c ∈ bytes.head?, isSpace c = false
  last : ∀ c ∈ bytes.getLast?, isSpace c = false
  deriving DecidableEq

/-- A key can not be taken for a header or a comment. -/
structure Key extends Word where
  noEquals : equals ∉ bytes
  noHeader : bytes.head? ≠ some openBracket
  noComment : bytes.head? ≠ some semicolon
  deriving DecidableEq

/-- A value written as it is. -/
structure PlainValue extends Word where
  noQuote : bytes.head? ≠ some quote
  deriving DecidableEq

/-- A value written in quotes: any string but the empty one. -/
structure QuotedValue where
  bytes : List Byte
  noNul : nul ∉ bytes
  nonempty : bytes ≠ []
  deriving DecidableEq

inductive Value where
  | plain (value : PlainValue)
  | quoted (value : QuotedValue)
  deriving DecidableEq

def Value.bytes : Value → List Byte
  | .plain value => value.bytes
  | .quoted value => value.bytes

inductive Item where
  | header (name : SectionName)
  | comment (text : Text)
  | entry (key : Key) (value : Value)
  deriving DecidableEq

/-- A byte inside quotes. -/
def escapeByte (c : Byte) : List Byte :=
  if c = quote ∨ c = backslash then [backslash, c]
  else if c = carriageReturn then [backslash, letterR]
  else if c = newline then [backslash, letterN]
  else [c]

def escape (value : List Byte) : List Byte :=
  value.flatMap escapeByte

def Value.render : Value → List Byte
  | .plain value => value.bytes
  | .quoted value => quote :: (escape value.bytes ++ [quote])

/-- A line of a file, without its end. -/
def Item.render : Item → List Byte
  | .header name => openBracket :: (name.bytes ++ [closeBracket])
  | .comment text => semicolon :: text.bytes
  | .entry key value => key.bytes ++ equals :: value.render

def render (items : List Item) : List Byte :=
  items.flatMap fun item => item.render ++ [newline]

/-- The first entry of that name in a section of that name. -/
def find (wanted : Option (List Byte)) (key : List Byte) :
    List Byte → List Item → Option (List Byte)
  | _, [] => none
  | _, .header name :: items => find wanted key name.bytes items
  | current, .comment _ :: items => find wanted key current items
  | current, .entry name value :: items =>
      if (∀ s ∈ wanted, SameName s current) ∧ SameName name.bytes key then some value.bytes
      else find wanted key current items

/-! ## Quoting -/

theorem unescape_quote (rest : List Byte) : unescape (quote :: rest) = [] := by
  cases rest with
  | nil => rfl
  | cons d rest => rw [unescape, if_pos (.inl rfl)]

theorem unescape_plain {c : Byte} (h : ¬(c = quote ∨ c = backslash)) (hr : c ≠ carriageReturn)
    (rest : List Byte) : unescape (c :: rest) = c :: unescape rest := by
  rw [not_or] at h
  have hstop : ¬(c = quote ∨ c = carriageReturn) := not_or.mpr ⟨h.1, hr⟩
  cases rest with
  | nil =>
      refine if_neg ?_
      simp only [not_or]
      exact ⟨h.1, hr, h.2⟩
  | cons d rest => rw [unescape, if_neg hstop, if_neg h.2]

theorem unescape_escaped {d : Byte} (hd : d ≠ carriageReturn) (rest : List Byte) :
    unescape (backslash :: d :: rest) = escaped d :: unescape rest := by
  rw [unescape, if_neg (by decide), if_pos rfl, if_neg hd]

theorem unescape_escapeByte (c : Byte) (rest : List Byte) :
    unescape (escapeByte c ++ rest) = c :: unescape rest := by
  unfold escapeByte
  split
  · rename_i hc
    rcases hc with rfl | rfl
    · exact unescape_escaped (by decide) rest
    · exact unescape_escaped (by decide) rest
  · rename_i hc
    split
    · rename_i hr
      subst hr
      exact unescape_escaped (by decide) rest
    · rename_i hr
      split
      · rename_i hn
        subst hn
        exact unescape_escaped (by decide) rest
      · exact unescape_plain hc hr rest

/-- What is quoted is unescaped to itself. -/
theorem unescape_escape (value rest : List Byte) :
    unescape (escape value ++ quote :: rest) = value := by
  induction value with
  | nil => exact unescape_quote rest
  | cons c value ih =>
      rw [escape, List.flatMap_cons, List.append_assoc, unescape_escapeByte]
      exact congrArg (c :: ·) ih

theorem not_mem_escape {value : List Byte} (h : nul ∉ value) :
    nul ∉ escape value ∧ newline ∉ escape value := by
  have hbyte : ∀ c : Byte, c ≠ nul → nul ∉ escapeByte c ∧ newline ∉ escapeByte c := by decide
  simp only [escape, List.mem_flatMap, not_exists, not_and]
  constructor
  · intro c hc
    exact (hbyte c fun heq => h (heq ▸ hc)).1
  · intro c hc
    exact (hbyte c fun heq => h (heq ▸ hc)).2

/-! ## Lines -/

/-- The strings an item is split into. -/
def Item.tokens : Item → List (List Byte)
  | .header name => [openBracket :: name.bytes]
  | .comment _ => []
  | .entry key value => [key.bytes, value.bytes]

theorem rdropWhile_of_last {s : List Byte} (h : ∀ c ∈ s.getLast?, isSpace c = false) :
    s.rdropWhile isSpace = s := by
  cases s using List.reverseRecOn with
  | nil => rfl
  | append_singleton s c =>
      rw [List.rdropWhile_concat_neg]
      rw [h c (by simp)]
      exact Bool.false_ne_true

/-- Up to a byte that is looked for. -/
theorem takeWhile_ne {s : List Byte} {b : Byte} (h : b ∉ s) (rest : List Byte) :
    (s ++ b :: rest).takeWhile (· != b) = s ∧ (s ++ b :: rest).dropWhile (· != b) = b :: rest := by
  have hs : ∀ c ∈ s, (c != b) = true := by
    intro c hc
    rw [bne_iff_ne]
    exact fun heq => h (heq ▸ hc)
  constructor
  · rw [List.takeWhile_append_of_pos hs, List.takeWhile_cons, if_neg (by simp), List.append_nil]
  · rw [List.dropWhile_append_of_pos hs, List.dropWhile_cons, if_neg (by simp)]

/-- The first byte of a word. -/
theorem Word.cons (word : Word) :
    ∃ c rest, word.bytes = c :: rest ∧ isBlank c = false := by
  obtain ⟨c, rest, hcons⟩ := List.exists_cons_of_ne_nil word.nonempty
  have hspace := word.first c (by rw [hcons]; rfl)
  have hnewline : c ≠ newline := by
    rintro rfl
    exact word.noNewline (by rw [hcons]; exact List.mem_cons_self)
  refine ⟨c, rest, hcons, ?_⟩
  rw [isBlank, hspace, Bool.false_or]
  simpa using hnewline

theorem entryTokens_render (key : Key) (value : Value) :
    entryTokens (Item.entry key value).render = [key.bytes, value.bytes] := by
  obtain ⟨htake, hdrop⟩ := takeWhile_ne key.noEquals value.render
  have hkey : nonempty (key.bytes.rdropWhile isSpace) = [key.bytes] := by
    rw [rdropWhile_of_last key.last, nonempty_of_ne key.nonempty]
  unfold entryTokens
  rw [Item.render, htake, hdrop, hkey]
  cases value with
  | plain value =>
      obtain ⟨c, rest, hcons, hblank⟩ := value.cons
      have hspace : isSpace c = false := by
        rw [isBlank, Bool.or_eq_false_iff] at hblank
        exact hblank.1
      have hquote : c ≠ quote := by
        rintro rfl
        exact value.noQuote (by rw [hcons]; rfl)
      have hstay : value.bytes.dropWhile isSpace = c :: rest := by
        rw [hcons, List.dropWhile_cons, if_neg (by rw [hspace]; exact Bool.false_ne_true)]
      simp only [Value.render, Value.bytes, hstay]
      rw [if_neg hquote, ← hcons, rdropWhile_of_last value.last]
      rfl
  | quoted value =>
      have hstay : (quote :: (escape value.bytes ++ [quote])).dropWhile isSpace =
          quote :: (escape value.bytes ++ [quote]) := by
        rw [List.dropWhile_cons, if_neg (by decide)]
      simp only [Value.render, Value.bytes, hstay, unescape_escape]
      rw [if_pos trivial, if_neg value.nonempty]
      rfl

theorem Value.not_mem_render (value : Value) :
    nul ∉ value.render ∧ newline ∉ value.render := by
  cases value with
  | plain value => exact ⟨value.noNul, value.noNewline⟩
  | quoted value =>
      obtain ⟨hnul, hnewline⟩ := not_mem_escape value.noNul
      simp only [Value.render, List.mem_cons, List.mem_append, List.not_mem_nil, or_false, not_or]
      exact ⟨⟨by decide, hnul, by decide⟩, by decide, hnewline, by decide⟩

theorem Item.not_mem_render (item : Item) : nul ∉ item.render ∧ newline ∉ item.render := by
  cases item with
  | header name =>
      simp only [Item.render, List.mem_cons, List.mem_append, List.not_mem_nil, or_false, not_or]
      exact ⟨⟨by decide, name.noNul, by decide⟩, by decide, name.noNewline, by decide⟩
  | comment text =>
      simp only [Item.render, List.mem_cons, not_or]
      exact ⟨⟨by decide, text.noNul⟩, by decide, text.noNewline⟩
  | entry key value =>
      obtain ⟨hnul, hnewline⟩ := value.not_mem_render
      simp only [Item.render, List.mem_append, List.mem_cons, not_or]
      exact ⟨⟨key.noNul, by decide, hnul⟩, key.noNewline, by decide, hnewline⟩

/-- A line that is neither blank nor a header gives the strings of its entry. -/
theorem tokenize_line {c : Byte} {line : List Byte} (hblank : isBlank c = false)
    (hopen : c ≠ openBracket) (hline : newline ∉ c :: line) (rest : List Byte) :
    tokenize (c :: line ++ newline :: rest) =
      (if c = semicolon then [] else entryTokens (c :: line)) ++ tokenize rest := by
  obtain ⟨htake, hdrop⟩ := takeWhile_ne hline rest
  rw [List.cons_append] at htake hdrop ⊢
  rw [tokenize, if_neg (by rw [hblank]; exact Bool.false_ne_true), if_neg hopen, htake, hdrop,
    List.drop_one, List.tail_cons]

/-- The strings of a line and those behind it. -/
theorem tokenize_item (item : Item) (rest : List Byte) :
    tokenize (item.render ++ newline :: rest) = item.tokens ++ tokenize rest := by
  obtain ⟨-, hline⟩ := item.not_mem_render
  cases item with
  | header name =>
      have hname : ∀ c ∈ name.bytes, inHeader c = true := by
        intro c hc
        simp only [inHeader, Bool.and_eq_true, bne_iff_ne]
        exact ⟨fun heq => name.noBracket (heq ▸ hc), fun heq => name.noNewline (heq ▸ hc)⟩
      have htake : (name.bytes ++ closeBracket :: newline :: rest).takeWhile inHeader =
          name.bytes := by
        rw [List.takeWhile_append_of_pos hname, List.takeWhile_cons, if_neg (by decide),
          List.append_nil]
      have hdrop : (name.bytes ++ closeBracket :: newline :: rest).dropWhile inHeader =
          closeBracket :: newline :: rest := by
        rw [List.dropWhile_append_of_pos hname, List.dropWhile_cons, if_neg (by decide)]
      rw [Item.render, List.cons_append, List.append_assoc, List.singleton_append, tokenize,
        if_neg (by decide), if_pos rfl, htake, hdrop, List.drop_one, List.tail_cons, tokenize,
        if_pos (by decide)]
      rfl
  | comment text =>
      rw [Item.render] at hline ⊢
      rw [tokenize_line (by decide) (by decide) hline, if_pos rfl]
      rfl
  | entry key value =>
      obtain ⟨c, tail, hcons, hblank⟩ := key.cons
      have hopen : c ≠ openBracket := by
        rintro rfl
        exact key.noHeader (by rw [hcons]; rfl)
      have hsemicolon : c ≠ semicolon := by
        rintro rfl
        exact key.noComment (by rw [hcons]; rfl)
      have hrender : (Item.entry key value).render = c :: (tail ++ equals :: value.render) := by
        rw [Item.render, hcons, List.cons_append]
      have htokens := entryTokens_render key value
      rw [hrender] at hline htokens ⊢
      rw [tokenize_line hblank hopen hline, if_neg hsemicolon, htokens]
      rfl

theorem tokenize_render (items : List Item) :
    tokenize (render items) = items.flatMap Item.tokens := by
  induction items with
  | nil => rw [render, List.flatMap_nil, tokenize, List.flatMap_nil]
  | cons item items ih =>
      rw [render, List.flatMap_cons, List.append_assoc, List.singleton_append, tokenize_item,
        List.flatMap_cons]
      exact congrArg (item.tokens ++ ·) ih

theorem not_mem_render (items : List Item) : nul ∉ render items := by
  simp only [render, List.mem_flatMap, List.mem_append, List.mem_singleton, not_exists, not_and,
    not_or]
  intro item _
  exact ⟨item.not_mem_render.1, by decide⟩

/-! ## Reading a written file -/

theorem lookup_tokens (wanted : Option (List Byte)) (key current : List Byte)
    (items : List Item) :
    lookup wanted key current (items.flatMap Item.tokens) = find wanted key current items := by
  induction items generalizing current with
  | nil => rfl
  | cons item items ih =>
      rw [List.flatMap_cons]
      cases item with
      | header name =>
          rw [Item.tokens, List.singleton_append, lookup, List.head?_cons, if_pos rfl,
            List.tail_cons, ih, find]
      | comment text => exact ih current
      | entry name value =>
          rw [Item.tokens, List.cons_append, List.singleton_append, lookup,
            if_neg name.noHeader, find]
          simp only [ih]

/-- What is written to a file is found in it. -/
theorem written_found (items : List Item) (hsize : (render items).length + 1 < 2 ^ 31) :
    ∃ ini, iniLoad (some (.regular (render items))) = some (some ini) ∧
      ∀ (wanted : Option CString) (key : CString),
        iniValue ini wanted key = some (find (wanted.map CString.bytes) key.bytes [] items) := by
  obtain ⟨ini, hload, hvalue⟩ := lookup_loaded (not_mem_render items) hsize
  refine ⟨ini, hload, fun wanted key => ?_⟩
  rw [hvalue, tokenize_render, lookup_tokens]

/-- The section `[cpu]`, a comment, `n=4`, and a key `a` whose value has a quote and ends the line. -/
def cpuItems : List Item :=
  [.header
      { bytes := [0x63, 0x70, 0x75], noNul := by decide, noNewline := by decide
        noBracket := by decide },
    .comment { bytes := [0x78], noNul := by decide, noNewline := by decide },
    .entry
      { bytes := [0x6e], noNul := by decide, noNewline := by decide, nonempty := by decide
        first := by decide, last := by decide, noEquals := by decide, noHeader := by decide
        noComment := by decide }
      (.plain
        { bytes := [0x34], noNul := by decide, noNewline := by decide, nonempty := by decide
          first := by decide, last := by decide, noQuote := by decide }),
    .entry
      { bytes := [0x61], noNul := by decide, noNewline := by decide, nonempty := by decide
        first := by decide, last := by decide, noEquals := by decide, noHeader := by decide
        noComment := by decide }
      (.quoted { bytes := [0x62, quote, newline], noNul := by decide, nonempty := by decide })]

/-- A key is looked up without regard to case. -/
theorem written_found_cpu :
    (∃ ini, iniLoad (some (.regular (render cpuItems))) = some (some ini) ∧
      ∀ (wanted : Option CString) (key : CString),
        iniValue ini wanted key = some (find (wanted.map CString.bytes) key.bytes [] cpuItems)) ∧
    find (some [0x43, 0x50, 0x55]) [0x41] [] cpuItems = some [0x62, quote, newline] :=
  ⟨written_found cpuItems (by decide), by decide⟩

end Zelda.Proofs.IniFile
