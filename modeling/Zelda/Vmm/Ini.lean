import Zelda.Vmm.Fdt
/-!
# The configuration file

`ini.c` reads the whole file, splits it in place into strings, and looks keys
up in what is left.  A pointer is an offset into the buffer; an access outside
it gives no result.
-/

namespace Zelda.Vmm

open Zelda.Lib.ByteBuffer

namespace Ascii

def nul : Byte := 0x00
def tab : Byte := 0x09
def newline : Byte := 0x0a
def carriageReturn : Byte := 0x0d
def space : Byte := 0x20
def quote : Byte := 0x22
def semicolon : Byte := 0x3b
def equals : Byte := 0x3d
def openBracket : Byte := 0x5b
def backslash : Byte := 0x5c
def closeBracket : Byte := 0x5d

/-- The letters an escape sequence may name. -/
def letterN : Byte := 0x6e
def letterR : Byte := 0x72
def letterT : Byte := 0x74

end Ascii

open Ascii

/-- `struct ini_t`: the buffer, and where in it `end` points. -/
structure Ini where
  data : List Byte
  fin : Nat
  deriving DecidableEq, Repr

/-! ## Access to the buffer -/

def storeByte (data : List Byte) (p : Nat) (value : Byte) : Option (List Byte) :=
  if p < data.length then some (data.set p value) else none

/-- `strcspn`: the bytes at `p` before a terminator or a byte of `reject`. -/
def strcspn (data : List Byte) (p : Nat) (reject : List Byte) : Option Nat :=
  let count := ((data.drop p).takeWhile fun c => c != nul && !reject.contains c).length
  if p + count < data.length then some count else none

/-- `strlen`. -/
def strlen (data : List Byte) (p : Nat) : Option Nat :=
  (stringAt nul data p).map List.length

/-- `tolower` in the C locale. -/
def tolower (c : Byte) : Byte :=
  if 0x41 ≤ c ∧ c ≤ 0x5a then c + 0x20 else c

/-- `strcmpci`, on the bytes before the terminators. -/
def strcmpci : List Byte → List Byte → Int
  | [], b => (tolower nul).toInt - (tolower (b.headD nul)).toInt
  | x :: a, b =>
      let d := (tolower x).toInt - (tolower (b.headD nul)).toInt
      if d ≠ 0 then d else strcmpci a b.tail

/-! ## Splitting the file -/

/-- What `trim_back` and the blanks behind an equals sign consist of. -/
def isSpace (c : Byte) : Bool :=
  c == space || c == tab || c == carriageReturn

/-- `trim_back`, called with a pointer to the byte before `n`. -/
def trimBack (data : List Byte) : Nat → Option (List Byte)
  | 0 => some data
  | n + 1 => do
      let c ← data[n]?
      if isSpace c then
        let data ← storeByte data n nul
        trimBack data n
      else
        pure data

/-- `discard_line`, in at most so many rounds. -/
def discardLine (fin : Nat) : Nat → List Byte → Nat → Option (List Byte × Nat)
  | 0, _, _ => none
  | rounds + 1, data, p =>
      if p < fin then do
        let c ← data[p]?
        if c ≠ newline then
          let data ← storeByte data p nul
          discardLine fin rounds data (p + 1)
        else
          pure (data, p)
      else
        pure (data, p)

/-- What an escape sequence stands for. -/
def escaped (c : Byte) : Byte :=
  if c = letterR then carriageReturn
  else if c = letterN then newline
  else if c = letterT then tab
  else c

/-- The loop of `unescape_quoted_value`, with its write head `q`. -/
def unescapeLoop (fin : Nat) : Nat → List Byte → Nat → Nat → Option (List Byte × Nat)
  | 0, _, _, _ => none
  | rounds + 1, data, q, p =>
      if p < fin then do
        let c ← data[p]?
        if c = quote ∨ c = carriageReturn ∨ c = newline then
          pure (data, q)
        else if c = backslash then
          let c ← data[p + 1]?
          if c = carriageReturn ∨ c = newline ∨ c = nul then
            pure (data, q)
          else
            let data ← storeByte data q (escaped c)
            unescapeLoop fin rounds data (q + 1) (p + 2)
        else
          let data ← storeByte data q c
          unescapeLoop fin rounds data (q + 1) (p + 1)
      else
        pure (data, q)

/-- `unescape_quoted_value`: the write head it returns. -/
def unescapeQuotedValue (fin : Nat) (data : List Byte) (p : Nat) : Option (List Byte × Nat) :=
  unescapeLoop fin (fin + 1) data p (p + 1)

/-- Replace an equals sign and the blanks behind it. -/
def clearEquals : Nat → List Byte → Nat → Option (List Byte × Nat)
  | 0, _, _ => none
  | rounds + 1, data, p => do
      let data ← storeByte data p nul
      let c ← data[p + 1]?
      if isSpace c then clearEquals rounds data (p + 1) else pure (data, p + 1)

/-- What the default case of `split_data` does with the value at `p`. -/
def splitValue (fin : Nat) (data : List Byte) (lineStart p : Nat) : Option (List Byte × Nat) := do
  let c ← data[p]?
  if c = newline ∨ c = nul then
    discardLine fin (fin + 1) data lineStart
  else if c = quote then
    let (data, q) ← unescapeQuotedValue fin data p
    if q = p then
      discardLine fin (fin + 1) data lineStart
    else
      discardLine fin (fin + 1) data q
  else
    let count ← strcspn data p [newline]
    let p := p + count
    let data ← trimBack data p
    pure (data, p)

/-- The default case of `split_data`: a line with a key and a value. -/
def splitEntry (fin : Nat) (data : List Byte) (lineStart : Nat) : Option (List Byte × Nat) := do
  let count ← strcspn data lineStart [equals, newline]
  let p := lineStart + count
  let c ← data[p]?
  if c ≠ equals then
    discardLine fin (fin + 1) data lineStart
  else
    let data ← trimBack data p
    let (data, p) ← clearEquals (fin + 1) data p
    splitValue fin data lineStart p

/-- One round of the loop of `split_data`. -/
def splitRound (fin : Nat) (data : List Byte) (p : Nat) : Option (List Byte × Nat) := do
  let c ← data[p]?
  if c = carriageReturn ∨ c = newline ∨ c = tab ∨ c = space then
    let data ← storeByte data p nul
    pure (data, p + 1)
  else if c = nul then
    pure (data, p + 1)
  else if c = openBracket then
    let count ← strcspn data p [closeBracket, newline]
    let p := p + count
    let data ← storeByte data p nul
    pure (data, p)
  else if c = semicolon then
    discardLine fin (fin + 1) data p
  else
    splitEntry fin data p

/-- The loop of `split_data`, in at most so many rounds. -/
def splitLoop (fin : Nat) : Nat → List Byte → Nat → Option (List Byte)
  | 0, _, _ => none
  | rounds + 1, data, p =>
      if p < fin then do
        let (data, p) ← splitRound fin data p
        splitLoop fin rounds data p
      else
        pure data

/-- `split_data`. -/
def splitData (ini : Ini) : Option Ini := do
  let data ← splitLoop ini.fin (ini.fin + 1) ini.data 0
  pure { ini with data }

/-! ## Loading -/

/-- The largest `int`. -/
def INT_MAX : Int := 2 ^ 31 - 1

/-- A stream that `fopen` has opened: what `ftell` says at its end, and what a read gets. -/
structure Stream where
  told : Int
  bytes : List Byte
  deriving DecidableEq, Repr

/-- A regular file. -/
def Stream.regular (file : List Byte) : Stream where
  told := file.length
  bytes := file

/-- `int sz = ftell(fp)`. -/
def Stream.sz (fp : Stream) : Int :=
  (BitVec.ofInt 32 fp.told).toInt

/-- The buffer of a file that was read whole. -/
def Ini.ofFile (file : List Byte) : Ini where
  data := file ++ [nul]
  fin := file.length

/--
`ini_load`, with memory for its two allocations: `some none` where it returns
`NULL`, `none` where `sz + 1` overflows or `data[sz]` is not in the buffer.
-/
def iniLoad : Option Stream → Option (Option Ini)
  | none => some none
  | some fp =>
      if fp.sz < 0 ∨ fp.sz = INT_MAX then none
      else
        let data := fp.bytes.take fp.sz.toNat
        -- `n != sz`
        if (data.length : Int) ≠ fp.sz then some none
        else (splitData (Ini.ofFile data)).map some

/-! ## Looking up -/

/-- The loop of `next`. -/
def skipNuls (ini : Ini) : Nat → Nat → Option Nat
  | 0, _ => none
  | rounds + 1, p =>
      if p < ini.fin then do
        let c ← ini.data[p]?
        if c = nul then skipNuls ini rounds (p + 1) else pure p
      else
        pure p

/-- `next`. -/
def iniNext (ini : Ini) (p : Nat) : Option Nat := do
  let count ← strlen ini.data p
  skipNuls ini (ini.fin + 1) (p + count)

/-- `current_section`: the empty string at first, then a pointer into the buffer. -/
def currentSectionName (ini : Ini) : Option Nat → Option (List Byte)
  | none => some []
  | some p => stringAt nul ini.data p

/-- `!section || !strcmpci(section, current_section)`. -/
def sectionMatches (ini : Ini) (wanted : Option CString) (currentSection : Option Nat) :
    Option Bool :=
  match wanted with
  | none => some true
  | some wanted => do
      let name ← currentSectionName ini currentSection
      pure (strcmpci wanted.bytes name == 0)

/-- The loop of `ini_get`, in at most so many rounds. -/
def iniGetLoop (ini : Ini) (wanted : Option CString) (key : CString) :
    Nat → Option Nat → Nat → Option (Option Nat)
  | 0, _, _ => none
  | rounds + 1, currentSection, p =>
      if p < ini.fin then do
        let c ← ini.data[p]?
        if c = openBracket then
          let p' ← iniNext ini p
          iniGetLoop ini wanted key rounds (some (p + 1)) p'
        else
          let val ← iniNext ini p
          let inSection ← sectionMatches ini wanted currentSection
          let name ← stringAt nul ini.data p
          if inSection && strcmpci name key.bytes == 0 then
            pure (some val)
          else
            let p ← iniNext ini val
            iniGetLoop ini wanted key rounds currentSection p
      else
        pure none

/-- `ini_get`: a pointer to the value, if the key is there. -/
def iniGet (ini : Ini) (wanted : Option CString) (key : CString) : Option (Option Nat) := do
  let c ← ini.data[0]?
  let p ← if c = nul then iniNext ini 0 else pure 0
  iniGetLoop ini wanted key (ini.fin + 1) none p

/-- The string `ini_get` leads to. -/
def iniValue (ini : Ini) (wanted : Option CString) (key : CString) :
    Option (Option (List Byte)) := do
  match ← iniGet ini wanted key with
  | none => pure none
  | some p => do
      let value ← stringAt nul ini.data p
      pure (some value)

end Zelda.Vmm
