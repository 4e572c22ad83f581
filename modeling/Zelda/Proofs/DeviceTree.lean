import Zelda.Vmm.Fdt
import Mathlib.Tactic.IntervalCases
/-!
# Device trees, written and scanned

The builder and the scanner compute padding separately, one on offsets and one
on pointers, and meet at the encoding of a list of tokens.
-/

namespace Zelda.Proofs.DeviceTree

open Zelda.Vmm
open Zelda.Lib.ByteBuffer

/-! ## Trees -/

/-- Nodes, properties and nops, each followed by its siblings. -/
inductive Forest
  | nil
  | node (name : CString) (items rest : Forest)
  | prop (name : CString) (value : List Byte) (rest : Forest)
  | nop (rest : Forest)

/-- Emit a forest through the builder. -/
def Forest.emit : Forest → FdtBuildBlob → Except Abort FdtBuildBlob
  | nil, blob => pure blob
  | node name items rest, blob => do
      let blob ← fdtBeginNode blob name
      let blob ← items.emit blob
      let blob ← fdtEndNode blob
      rest.emit blob
  | prop name value rest, blob => do
      let blob ← fdtProp blob name (BitVec.ofNat 32 value.length) value
      rest.emit blob
  | nop rest, blob => do
      let blob ← fdtNop blob
      rest.emit blob

/-- The whole blob of a forest. -/
def Forest.build (forest : Forest) (bufferSize stringBufferSize : Word) :
    Except Abort FdtBuildBlob := do
  let blob ← fdtBuildInit bufferSize stringBufferSize
  let blob ← forest.emit blob
  fdtEnd blob

/-- One call of the builder. -/
inductive Token
  | beginNode (name : CString)
  | prop (name : CString) (value : List Byte)
  | nop
  | endNode

def Forest.tokens : Forest → List Token
  | nil => []
  | node name items rest => .beginNode name :: (items.tokens ++ .endNode :: rest.tokens)
  | prop name value rest => .prop name value :: rest.tokens
  | nop rest => .nop :: rest.tokens

/-- What the scanner should see of it. -/
def Token.visit : Token → FdtVisit
  | beginNode name => .beginNode name.bytes
  | prop name value => .prop name.bytes (BitVec.ofNat 32 value.length) value
  | nop => .nop
  | endNode => .endNode

def Token.emit : Token → FdtBuildBlob → Except Abort FdtBuildBlob
  | beginNode name, blob => fdtBeginNode blob name
  | prop name value, blob => fdtProp blob name (BitVec.ofNat 32 value.length) value
  | nop, blob => fdtNop blob
  | endNode, blob => fdtEndNode blob

def emitAll : List Token → FdtBuildBlob → Except Abort FdtBuildBlob
  | [], blob => pure blob
  | token :: rest, blob => do
      let blob ← token.emit blob
      emitAll rest blob

theorem emitAll_append (front back : List Token) (blob : FdtBuildBlob) :
    emitAll (front ++ back) blob = emitAll front blob >>= emitAll back := by
  induction front generalizing blob with
  | nil => rfl
  | cons token rest ih =>
      simp only [List.cons_append, emitAll]
      cases token.emit blob with
      | error e => rfl
      | ok blob => exact ih blob

/-- The calls of a tree, one after another. -/
theorem emit_eq_emitAll (forest : Forest) (blob : FdtBuildBlob) :
    forest.emit blob = emitAll forest.tokens blob := by
  induction forest generalizing blob with
  | nil => rfl
  | node name items rest ihitems ihrest =>
      simp only [Forest.emit, Forest.tokens, emitAll, Token.emit]
      cases fdtBeginNode blob name with
      | error e => rfl
      | ok blob =>
          change items.emit blob >>= _ = emitAll (items.tokens ++ .endNode :: rest.tokens) blob
          rw [emitAll_append, ihitems]
          cases emitAll items.tokens blob with
          | error e => rfl
          | ok blob =>
              change fdtEndNode blob >>= rest.emit = fdtEndNode blob >>= emitAll rest.tokens
              rw [funext ihrest]
  | prop name value rest ih =>
      simp only [Forest.emit, Forest.tokens, emitAll, Token.emit]
      rw [funext ih]
  | nop rest ih =>
      simp only [Forest.emit, Forest.tokens, emitAll, Token.emit]
      rw [funext ih]

/-! ## Words in memory -/

@[simp] theorem bind_ok {α β : Type} (a : α) (f : α → Except Abort β) :
    (Except.ok a >>= f) = f a := rfl

@[simp] theorem length_wordBytes (value : Word) : (wordBytes value).length = 4 := rfl

/-- The two byte swaps cancel. -/
@[simp] theorem littleEndian32_bigEndian32 (v : Word) : littleEndian32 (bigEndian32 v) = v := by
  apply BitVec.eq_of_getLsbD_eq
  intro i hi
  unfold bigEndian32 littleEndian32
  interval_cases i <;> simp

theorem append_wordBytes (v : Word) :
    v.extractLsb' 24 8 ++ v.extractLsb' 16 8 ++ v.extractLsb' 8 8 ++ v.extractLsb' 0 8 = v := by
  have hhigh : v.extractLsb' 24 8 ++ v.extractLsb' 16 8 = v.extractLsb' 16 16 :=
    BitVec.extractLsb'_append_extractLsb'_eq_extractLsb' rfl
  have hrest : v.extractLsb' 16 16 ++ v.extractLsb' 8 8 = v.extractLsb' 8 24 :=
    BitVec.extractLsb'_append_extractLsb'_eq_extractLsb' rfl
  have hall : v.extractLsb' 8 24 ++ v.extractLsb' 0 8 = v.extractLsb' 0 32 :=
    BitVec.extractLsb'_append_extractLsb'_eq_extractLsb' rfl
  rw [hhigh, hrest, hall]
  exact BitVec.extractLsb'_eq_self

theorem hostLoad32_append (front back : List Byte) (v : Word) :
    hostLoad32 (front ++ wordBytes v ++ back) front.length = .ok v := by
  unfold hostLoad32
  rw [← length_wordBytes v, readAt_append]
  simp only [wordBytes, append_wordBytes]

theorem loadString_append (front back : List Byte) (s : CString) :
    loadString (front ++ s.bytes ++ 0 :: back) front.length = .ok s.bytes := by
  unfold loadString
  rw [stringAt_append front back s.noNul]

/-- A token word, most significant byte first. -/
def tokenBytes (value : Word) : List Byte :=
  wordBytes (bigEndian32 value)

@[simp] theorem length_tokenBytes (value : Word) : (tokenBytes value).length = 4 := rfl

/-- A sequence of such words, as the header is one. -/
def wordsBytes (words : List Word) : List Byte :=
  words.flatMap tokenBytes

@[simp] theorem length_wordsBytes (words : List Word) :
    (wordsBytes words).length = 4 * words.length := by
  induction words with
  | nil => rfl
  | cons word rest ih =>
      simp only [wordsBytes, List.flatMap_cons, List.length_append, length_tokenBytes,
        List.length_cons] at ih ⊢
      omega

/-- The words around position `i`. -/
theorem wordsBytes_split {words : List Word} {i : Nat} (hi : i < words.length) :
    wordsBytes words =
      wordsBytes (words.take i) ++ tokenBytes words[i] ++ wordsBytes (words.drop (i + 1)) := by
  have hsplit : words = words.take i ++ words[i] :: words.drop (i + 1) := by
    rw [List.getElem_cons_drop, List.take_append_drop]
  conv_lhs => rw [hsplit]
  simp only [wordsBytes, List.flatMap_append, List.flatMap_cons, List.append_assoc]

theorem hostStore32_words {words : List Word} {i : Nat} (hi : i < words.length) (v : Word)
    (back : List Byte) :
    hostStore32 (wordsBytes words ++ back) (4 * i) (bigEndian32 v) =
      .ok (wordsBytes (words.set i v) ++ back) := by
  have hset : wordsBytes (words.set i v) =
      wordsBytes (words.take i) ++ tokenBytes v ++ wordsBytes (words.drop (i + 1)) := by
    rw [wordsBytes_split (i := i) (by simpa using hi)]
    simp [List.take_set_of_le, List.drop_set_of_lt]
  have hfront : (wordsBytes (words.take i)).length = 4 * i := by
    rw [length_wordsBytes, List.length_take, Nat.min_eq_left hi.le]
  have hwrite := writeAt_append (wordsBytes (words.take i)) (tokenBytes words[i])
    (wordsBytes (words.drop (i + 1)) ++ back) (length_tokenBytes v)
  rw [hfront, ← List.append_assoc, ← wordsBytes_split hi, ← List.append_assoc, ← hset] at hwrite
  unfold hostStore32 memcpyTo
  rw [show wordBytes (bigEndian32 v) = tokenBytes v from rfl, hwrite]

theorem hostLoad32_words {words : List Word} {i : Nat} (hi : i < words.length) (back : List Byte) :
    hostLoad32 (wordsBytes words ++ back) (4 * i) = .ok (bigEndian32 words[i]) := by
  have hfront : (wordsBytes (words.take i)).length = 4 * i := by
    rw [length_wordsBytes, List.length_take, Nat.min_eq_left hi.le]
  rw [wordsBytes_split hi, List.append_assoc, ← hfront]
  exact hostLoad32_append _ _ _

/-! ## The encoding -/

/-- Bytes filled up to a multiple of four. -/
def padded (bytes : List Byte) : List Byte :=
  bytes ++ List.replicate (padding bytes.length) 0

@[simp] theorem length_padded (bytes : List Byte) :
    (padded bytes).length = bytes.length + padding bytes.length := by
  rw [padded, List.length_append, List.length_replicate]

/-- A token as it stands in the structure block, its name at `nameoff` in the strings block. -/
def Token.bytes (nameoff : Nat) : Token → List Byte
  | beginNode name => padded (tokenBytes FDT_BEGIN_NODE ++ name.bytes ++ [0])
  | prop _ value =>
      padded (tokenBytes FDT_PROP ++ tokenBytes (BitVec.ofNat 32 value.length) ++
        tokenBytes (BitVec.ofNat 32 nameoff) ++ value)
  | nop => tokenBytes FDT_NOP
  | endNode => tokenBytes FDT_END_NODE

/-- What a token adds to the strings block. -/
def Token.string : Token → List Byte
  | prop name _ => name.bytes ++ [0]
  | beginNode _ => []
  | nop => []
  | endNode => []

/-- The strings block. -/
def stringBytes (tokens : List Token) : List Byte :=
  tokens.flatMap Token.string

/-- The structure block, up to its end token. -/
def structBytes (nameoff : Nat) : List Token → List Byte
  | [] => []
  | token :: rest =>
      token.bytes nameoff ++ structBytes (nameoff + token.string.length) rest

theorem stringBytes_cons (token : Token) (rest : List Token) :
    stringBytes (token :: rest) = token.string ++ stringBytes rest :=
  List.flatMap_cons ..

/-- A token takes up whole words. -/
theorem length_bytes_mod (nameoff : Nat) (token : Token) :
    (token.bytes nameoff).length % 4 = 0 := by
  cases token with
  | beginNode name =>
      rw [Token.bytes, length_padded]
      exact add_padding_mod _
  | prop name value =>
      rw [Token.bytes, length_padded]
      exact add_padding_mod _
  | nop => rw [Token.bytes, length_tokenBytes]
  | endNode => rw [Token.bytes, length_tokenBytes]

/-! ## Emission -/

/-- An allocation with `bytes` at its start and zeros behind. -/
def filled (size : Word) (bytes : List Byte) : List Byte :=
  bytes ++ List.replicate (size.toNat - bytes.length) 0

/-- The builder when `bytes` and `strings` have been written. -/
def written (bufferSize stringBufferSize : Word) (bytes strings : List Byte) : FdtBuildBlob where
  buffer := filled bufferSize bytes
  bufferSize
  bufferIptr := BitVec.ofNat 32 bytes.length
  stringBuffer := filled stringBufferSize strings
  stringBufferSize
  stringBufferIptr := BitVec.ofNat 32 strings.length

section Filled

variable {size : Word} {bytes items : List Byte}

/-- A copy to the end of what has been written. -/
theorem memcpyTo_filled {offset : Nat} (hoffset : bytes.length = offset)
    (h : offset + items.length ≤ size.toNat) :
    memcpyTo (filled size bytes) offset items = .ok (filled size (bytes ++ items)) := by
  subst hoffset
  unfold memcpyTo filled
  rw [writeAt_fill bytes 0 (by omega), List.length_append, Nat.sub_sub]

theorem hostStore32_filled {offset : Nat} (v : Word) (hoffset : bytes.length = offset)
    (h : offset + 4 ≤ size.toNat) :
    hostStore32 (filled size bytes) offset (bigEndian32 v) =
      .ok (filled size (bytes ++ tokenBytes v)) :=
  memcpyTo_filled hoffset h

/-- Zeros need not be written. -/
theorem filled_zeros {n : Nat} (h : bytes.length + n ≤ size.toNat) :
    filled size (bytes ++ List.replicate n 0) = filled size bytes := by
  unfold filled
  rw [List.append_assoc, List.replicate_append_replicate, List.length_append,
    List.length_replicate]
  congr 2
  omega

theorem hostStore32_header {words : List Word} {i : Nat} (hi : i < words.length) (v : Word) :
    hostStore32 (filled size (wordsBytes words ++ bytes)) (4 * i) (bigEndian32 v) =
      .ok (filled size (wordsBytes (words.set i v) ++ bytes)) := by
  unfold filled
  simp only [List.append_assoc, hostStore32_words hi, List.length_append, length_wordsBytes,
    List.length_set]

theorem hostLoad32_header {words : List Word} {i : Nat} (hi : i < words.length) :
    hostLoad32 (filled size (wordsBytes words ++ bytes)) (4 * i) = .ok (bigEndian32 words[i]) := by
  unfold filled
  rw [List.append_assoc]
  exact hostLoad32_words hi _

theorem take_filled (size : Word) (bytes : List Byte) :
    (filled size bytes).take bytes.length = bytes :=
  List.take_left

theorem readAt_filled (size : Word) (bytes : List Byte) :
    readAt (filled size bytes) 0 bytes.length = some bytes :=
  readAt_append [] bytes _

/-- The insertion point as a number. -/
theorem toNat_iptr (size : Word) (h : bytes.length ≤ size.toNat) :
    (BitVec.ofNat 32 bytes.length).toNat = bytes.length :=
  toNat_ofNat_of_lt (h.trans_lt size.isLt)

theorem toNat_room (h : bytes.length ≤ size.toNat) :
    (size - BitVec.ofNat 32 bytes.length).toNat = size.toNat - bytes.length := by
  have hiptr := toNat_iptr size h
  rw [BitVec.toNat_sub_of_le, hiptr]
  rw [BitVec.le_def, hiptr]
  exact h

/-- `ALIGN32` adds the padding. -/
theorem toNat_alignInt {n : Nat} (h : n + padding n < 2 ^ 32) :
    (alignInt (BitVec.ofNat 32 n) 4).toNat = n + padding n := by
  have hn : (BitVec.ofNat 32 n).toNat = n := toNat_ofNat_of_lt (by omega)
  have halign : alignInt (BitVec.ofNat 32 n) 4 =
      BitVec.ofNat 32 n + BitVec.ofNat 32 (padding (BitVec.ofNat 32 n).toNat) :=
    align_four (by decide) _
  rw [halign, hn, ← BitVec.ofNat_add]
  exact toNat_ofNat_of_lt h

/-- The insertion point behind what was just written. -/
theorem iptr_add_alignInt {n : Nat} (hitems : items.length = n + padding n)
    (h : n + padding n < 2 ^ 32) :
    BitVec.ofNat 32 bytes.length + alignInt (BitVec.ofNat 32 n) 4 =
      BitVec.ofNat 32 (bytes ++ items).length := by
  have halign : alignInt (BitVec.ofNat 32 n) 4 = BitVec.ofNat 32 (n + padding n) := by
    apply BitVec.eq_of_toNat_eq
    rw [toNat_alignInt h, toNat_ofNat_of_lt h]
  rw [halign, List.length_append, hitems, ← BitVec.ofNat_add]

/-- The assertion on the room behind the insertion point. -/
theorem assert_room (needed : Word) (h : bytes.length + needed.toNat ≤ size.toNat) :
    fdtAssert (needed ≤ size - BitVec.ofNat 32 bytes.length) = .ok () := by
  have hroom : (size - BitVec.ofNat 32 bytes.length).toNat = size.toNat - bytes.length :=
    toNat_room (by omega)
  have hle : needed ≤ size - BitVec.ofNat 32 bytes.length := by
    rw [BitVec.le_def, hroom]
    omega
  unfold fdtAssert
  rw [decide_eq_true hle, if_pos rfl]

end Filled

section Emit

variable {bufferSize stringBufferSize : Word} {bytes strs : List Byte}

theorem fdtToken_written (token : Word) (h : bytes.length + 4 ≤ bufferSize.toNat) :
    fdtToken token (written bufferSize stringBufferSize bytes strs) =
      .ok (written bufferSize stringBufferSize (bytes ++ tokenBytes token) strs) := by
  have hassert := assert_room 4 h
  have hstore := hostStore32_filled token rfl h
  have hiptr := toNat_iptr bufferSize (Nat.le_of_add_right_le h)
  unfold fdtToken written
  simp only [hassert, hiptr, hstore, bind_ok]
  rw [List.length_append, length_tokenBytes, BitVec.ofNat_add]
  rfl

theorem fdtBeginNode_written (name : CString)
    (h : bytes.length + (Token.bytes strs.length (.beginNode name)).length ≤ bufferSize.toNat) :
    fdtBeginNode (written bufferSize stringBufferSize bytes strs) name =
      .ok (written bufferSize stringBufferSize
        (bytes ++ Token.bytes strs.length (.beginNode name)) strs) := by
  set n := 4 + name.strlen + 1 with hn
  have hlength : (tokenBytes FDT_BEGIN_NODE ++ name.bytes ++ [0]).length = n := by
    simp only [List.length_append, length_tokenBytes, List.length_singleton]
    rfl
  -- the terminator is one of the zeros that were never written
  have hbytes : Token.bytes strs.length (.beginNode name) =
      tokenBytes FDT_BEGIN_NODE ++ name.bytes ++ List.replicate (1 + padding n) 0 := by
    rw [Token.bytes, padded, hlength, List.append_assoc _ [0], ← List.replicate_append_replicate]
    rfl
  have hall : (Token.bytes strs.length (.beginNode name)).length = n + padding n := by
    rw [Token.bytes, length_padded, hlength]
  have hfront : (bytes ++ tokenBytes FDT_BEGIN_NODE).length = bytes.length + 4 := by
    rw [List.length_append, length_tokenBytes]
  rw [hall] at h
  have hmax := bufferSize.isLt
  have haligned : (alignInt (BitVec.ofNat 32 n) 4).toNat = n + padding n :=
    toNat_alignInt (by omega)
  have hassert := assert_room (alignInt (BitVec.ofNat 32 n) 4) (haligned.symm ▸ h)
  have hiptr := toNat_iptr bufferSize (Nat.le_of_add_right_le h)
  have hroom : bytes.length + 4 + name.bytes.length ≤ bufferSize.toNat := by
    have : n = 4 + name.bytes.length + 1 := hn
    omega
  have hstore : hostStore32 (filled bufferSize bytes) bytes.length (bigEndian32 FDT_BEGIN_NODE) =
      .ok (filled bufferSize (bytes ++ tokenBytes FDT_BEGIN_NODE)) :=
    hostStore32_filled FDT_BEGIN_NODE rfl (by omega)
  have hcopy : memcpyTo (filled bufferSize (bytes ++ tokenBytes FDT_BEGIN_NODE))
      (bytes.length + 4) name.bytes =
        .ok (filled bufferSize (bytes ++ tokenBytes FDT_BEGIN_NODE ++ name.bytes)) :=
    memcpyTo_filled hfront hroom
  have hzeros : filled bufferSize (bytes ++ Token.bytes strs.length (.beginNode name)) =
      filled bufferSize (bytes ++ tokenBytes FDT_BEGIN_NODE ++ name.bytes) := by
    rw [hbytes, ← List.append_assoc, ← List.append_assoc]
    apply filled_zeros
    have : n = 4 + name.bytes.length + 1 := hn
    rw [List.length_append, hfront]
    omega
  unfold fdtBeginNode written
  simp only [← hn, hassert, hiptr, hstore, hcopy, bind_ok]
  rw [hzeros, ← iptr_add_alignInt hall (by omega)]
  rfl

/-- What `fdt_prop` has in its structure buffer when it comes to the name. -/
theorem prop_struct_written (name : CString) (value : List Byte)
    (h : bytes.length + (Token.bytes strs.length (.prop name value)).length ≤ bufferSize.toNat) :
    fdtProp (written bufferSize stringBufferSize bytes strs) name
        (BitVec.ofNat 32 value.length) value = (do
      let nameSize := BitVec.ofNat 32 (name.strlen + 1)
      fdtAssert (nameSize < stringBufferSize - BitVec.ofNat 32 strs.length)
      let stringBuffer ← memcpyTo (filled stringBufferSize strs)
        (BitVec.ofNat 32 strs.length).toNat ((name.bytes ++ [0]).take nameSize.toNat)
      pure
        { buffer := filled bufferSize (bytes ++ Token.bytes strs.length (.prop name value))
          bufferSize
          bufferIptr := BitVec.ofNat 32
            (bytes ++ Token.bytes strs.length (.prop name value)).length
          stringBuffer
          stringBufferSize
          stringBufferIptr := BitVec.ofNat 32 strs.length + nameSize }) := by
  set n := 4 + FDT_PROPERTY_SIZE + value.length with hn
  set words := tokenBytes FDT_PROP ++ tokenBytes (BitVec.ofNat 32 value.length) ++
    tokenBytes (BitVec.ofNat 32 strs.length) with hwords
  have hlength : (words ++ value).length = n := by
    rw [hwords]
    simp only [List.length_append, length_tokenBytes]
    rfl
  have hall : (Token.bytes strs.length (.prop name value)).length = n + padding n := by
    rw [Token.bytes, ← hwords, length_padded, hlength]
  rw [hall] at h
  have hmax := bufferSize.isLt
  have hvalue : (BitVec.ofNat 32 value.length).toNat = value.length :=
    toNat_ofNat_of_lt (by omega)
  have hassert := assert_room (alignInt (BitVec.ofNat 32 n) 4)
    ((toNat_alignInt (n := n) (by omega)).symm ▸ h)
  have hiptr := toNat_iptr bufferSize (Nat.le_of_add_right_le h)
  have hroom : bytes.length + 12 + value.length ≤ bufferSize.toNat := by
    have : n = 12 + value.length := hn
    omega
  have htoken : hostStore32 (filled bufferSize bytes) bytes.length (bigEndian32 FDT_PROP) =
      .ok (filled bufferSize (bytes ++ tokenBytes FDT_PROP)) :=
    hostStore32_filled FDT_PROP rfl (by omega)
  have hlen : hostStore32 (filled bufferSize (bytes ++ tokenBytes FDT_PROP)) (bytes.length + 4)
      (bigEndian32 (BitVec.ofNat 32 value.length)) =
        .ok (filled bufferSize (bytes ++ tokenBytes FDT_PROP ++
          tokenBytes (BitVec.ofNat 32 value.length))) :=
    hostStore32_filled _ (by simp) (by omega)
  have hoff : hostStore32 (filled bufferSize (bytes ++ tokenBytes FDT_PROP ++
      tokenBytes (BitVec.ofNat 32 value.length))) (bytes.length + 8)
      (bigEndian32 (BitVec.ofNat 32 strs.length)) = .ok (filled bufferSize (bytes ++ words)) := by
    rw [hostStore32_filled _ (by simp) (by omega), hwords]
    simp only [List.append_assoc]
  have hcopy : memcpyTo (filled bufferSize (bytes ++ words)) (bytes.length + 4 + FDT_PROPERTY_SIZE)
      value = .ok (filled bufferSize (bytes ++ words ++ value)) := by
    apply memcpyTo_filled
    · simp [hwords, FDT_PROPERTY_SIZE]
    · simp only [FDT_PROPERTY_SIZE]
      omega
  have hzeros : filled bufferSize (bytes ++ Token.bytes strs.length (.prop name value)) =
      filled bufferSize (bytes ++ words ++ value) := by
    rw [Token.bytes, ← hwords, padded, hlength, ← List.append_assoc, ← List.append_assoc]
    apply filled_zeros
    rw [List.append_assoc, List.length_append, hlength]
    omega
  unfold fdtProp written
  simp only [hvalue, ← hn, hassert, hiptr, htoken, hlen, hoff, readAt_self, hcopy, bind_ok]
  rw [hzeros, ← iptr_add_alignInt hall (by omega)]

/-- The room `fdt_prop` sees for a name. -/
theorem toNat_nameSize {name : CString} (h : strs.length + (name.strlen + 1) ≤
    stringBufferSize.toNat) :
    (BitVec.ofNat 32 (name.strlen + 1)).toNat = name.strlen + 1 ∧
      (stringBufferSize - BitVec.ofNat 32 strs.length).toNat =
        stringBufferSize.toNat - strs.length := by
  have hmax := stringBufferSize.isLt
  exact ⟨toNat_ofNat_of_lt (by omega), toNat_room (by omega)⟩

theorem fdtProp_written (name : CString) (value : List Byte)
    (h : bytes.length + (Token.bytes strs.length (.prop name value)).length ≤ bufferSize.toNat)
    (hname : strs.length + (name.strlen + 1) < stringBufferSize.toNat) :
    fdtProp (written bufferSize stringBufferSize bytes strs) name
        (BitVec.ofNat 32 value.length) value =
      .ok (written bufferSize stringBufferSize
        (bytes ++ Token.bytes strs.length (.prop name value)) (strs ++ (name.bytes ++ [0]))) := by
  obtain ⟨hsize, hroom⟩ := toNat_nameSize hname.le
  have hlength : (name.bytes ++ [0]).length = name.strlen + 1 := by
    rw [List.length_append, List.length_singleton]
    rfl
  have hlt : BitVec.ofNat 32 (name.strlen + 1) <
      stringBufferSize - BitVec.ofNat 32 strs.length := by
    rw [BitVec.lt_def, hsize, hroom]
    omega
  have hassert : fdtAssert (BitVec.ofNat 32 (name.strlen + 1) <
      stringBufferSize - BitVec.ofNat 32 strs.length) = .ok () := by
    unfold fdtAssert
    rw [decide_eq_true hlt, if_pos rfl]
  have htake : (name.bytes ++ [0]).take (name.strlen + 1) = name.bytes ++ [0] := by
    rw [← hlength, List.take_length]
  have hcopy : memcpyTo (filled stringBufferSize strs) strs.length (name.bytes ++ [0]) =
      .ok (filled stringBufferSize (strs ++ (name.bytes ++ [0]))) :=
    memcpyTo_filled rfl (by rw [hlength]; exact hname.le)
  have hiptr := toNat_iptr stringBufferSize (Nat.le_of_add_right_le hname.le)
  rw [prop_struct_written name value h]
  simp only [hassert, hsize, htake, hiptr, hcopy, bind_ok, ← BitVec.ofNat_add]
  unfold written
  rw [← hlength, ← List.length_append]
  rfl

/-- A name that would just fill the string buffer is refused. -/
theorem fdtProp_full (name : CString) (value : List Byte)
    (h : bytes.length + (Token.bytes strs.length (.prop name value)).length ≤ bufferSize.toNat)
    (hname : strs.length + (name.strlen + 1) = stringBufferSize.toNat) :
    fdtProp (written bufferSize stringBufferSize bytes strs) name
        (BitVec.ofNat 32 value.length) value = .error .exit := by
  obtain ⟨hsize, hroom⟩ := toNat_nameSize hname.le
  have hlt : ¬BitVec.ofNat 32 (name.strlen + 1) <
      stringBufferSize - BitVec.ofNat 32 strs.length := by
    rw [BitVec.lt_def, hsize, hroom]
    omega
  have hassert : fdtAssert (BitVec.ofNat 32 (name.strlen + 1) <
      stringBufferSize - BitVec.ofNat 32 strs.length) = .error .exit := by
    unfold fdtAssert
    rw [decide_eq_false hlt]
    rfl
  rw [prop_struct_written name value h]
  simp only [hassert]
  rfl

/-- One token, when the strings block stays short of its buffer. -/
theorem emit_written (token : Token)
    (h : bytes.length + (token.bytes strs.length).length ≤ bufferSize.toNat)
    (hstring : token.string = [] ∨
      strs.length + token.string.length < stringBufferSize.toNat) :
    token.emit (written bufferSize stringBufferSize bytes strs) =
      .ok (written bufferSize stringBufferSize (bytes ++ token.bytes strs.length)
        (strs ++ token.string)) := by
  cases token with
  | beginNode name =>
      rw [Token.string, List.append_nil]
      exact fdtBeginNode_written name h
  | prop name value =>
      apply fdtProp_written name value h
      rw [Token.string] at hstring
      rcases hstring with hnil | hlt
      · simp at hnil
      · rwa [List.length_append] at hlt
  | nop =>
      rw [Token.string, List.append_nil]
      exact fdtToken_written FDT_NOP h
  | endNode =>
      rw [Token.string, List.append_nil]
      exact fdtToken_written FDT_END_NODE h

/-- A sequence of tokens, when the strings block stays short of its buffer. -/
theorem emitAll_written (tokens : List Token)
    (h : bytes.length + (structBytes strs.length tokens).length ≤ bufferSize.toNat)
    (hstrings : stringBytes tokens = [] ∨
      strs.length + (stringBytes tokens).length < stringBufferSize.toNat) :
    emitAll tokens (written bufferSize stringBufferSize bytes strs) =
      .ok (written bufferSize stringBufferSize (bytes ++ structBytes strs.length tokens)
        (strs ++ stringBytes tokens)) := by
  induction tokens generalizing bytes strs with
  | nil =>
      rw [structBytes, stringBytes, List.flatMap_nil, List.append_nil, List.append_nil]
      rfl
  | cons token rest ih =>
      rw [structBytes, List.length_append] at h
      rw [stringBytes_cons, List.append_eq_nil_iff, List.length_append] at hstrings
      have hfirst : token.emit (written bufferSize stringBufferSize bytes strs) =
          .ok (written bufferSize stringBufferSize (bytes ++ token.bytes strs.length)
            (strs ++ token.string)) := by
        apply emit_written token (by omega)
        rcases hstrings with ⟨hnil, -⟩ | hlt
        · exact .inl hnil
        · exact .inr (by omega)
      rw [emitAll, hfirst, bind_ok, ih]
      · rw [structBytes, stringBytes_cons, List.append_assoc, List.append_assoc,
          List.length_append]
      · rw [List.length_append, List.length_append]
        omega
      · rw [List.length_append]
        rcases hstrings with ⟨-, hnil⟩ | hlt
        · exact .inl hnil
        · exact .inr (by omega)

/-- A strings block that would just fill its buffer is refused. -/
theorem emitAll_full (tokens : List Token)
    (h : bytes.length + (structBytes strs.length tokens).length ≤ bufferSize.toNat)
    (hprops : stringBytes tokens ≠ [])
    (hfull : strs.length + (stringBytes tokens).length = stringBufferSize.toNat) :
    emitAll tokens (written bufferSize stringBufferSize bytes strs) = .error .exit := by
  induction tokens generalizing bytes strs with
  | nil => exact absurd rfl hprops
  | cons token rest ih =>
      rw [structBytes, List.length_append] at h
      rw [stringBytes_cons, List.length_append] at hfull
      by_cases hrest : stringBytes rest = []
      · -- the last property
        rw [stringBytes_cons, hrest, List.append_nil] at hprops
        rw [hrest, List.length_nil, Nat.add_zero] at hfull
        cases token with
        | prop name value =>
            have hlast : Token.emit (.prop name value)
                (written bufferSize stringBufferSize bytes strs) = .error .exit := by
              apply fdtProp_full name value (by omega)
              rwa [Token.string, List.length_append] at hfull
            rw [emitAll, hlast]
            rfl
        | beginNode _ => exact absurd rfl hprops
        | nop => exact absurd rfl hprops
        | endNode => exact absurd rfl hprops
      · have hpos : 0 < (stringBytes rest).length := List.length_pos_of_ne_nil hrest
        have hfirst : token.emit (written bufferSize stringBufferSize bytes strs) =
            .ok (written bufferSize stringBufferSize (bytes ++ token.bytes strs.length)
              (strs ++ token.string)) :=
          emit_written token (by omega) (.inr (by omega))
        rw [emitAll, hfirst, bind_ok]
        apply ih _ hrest
        · rw [List.length_append]
          omega
        · rw [List.length_append, List.length_append]
          omega

end Emit

/-! ## The header -/

/-- The header, as words; the rest of it is the same in every blob. -/
def header (totalsize offDtStrings sizeDtStrings sizeDtStruct : Word) : List Word :=
  [FDT_MAGIC, totalsize, 56, offDtStrings, 40, 17, 2, 0, sizeDtStrings, sizeDtStruct]

/-- What stands between the header and the structure block. -/
def reservations : List Byte :=
  List.replicate 16 0

/-- A blob whose structure block is `body`. -/
def blobBytes (words : List Word) (body : List Byte) : List Byte :=
  wordsBytes words ++ (reservations ++ body)

theorem length_blobBytes (totalsize offDtStrings sizeDtStrings sizeDtStruct : Word)
    (body : List Byte) :
    (blobBytes (header totalsize offDtStrings sizeDtStrings sizeDtStruct) body).length =
      56 + body.length := by
  simp only [blobBytes, header, reservations, List.length_append, length_wordsBytes,
    List.length_cons, List.length_nil, List.length_replicate]
  omega

section Header

variable {bufferSize stringBufferSize : Word} {body strs : List Byte}

theorem mallocZeroed_of_nonneg {size : Word} (h : 0 ≤ size.toInt) :
    mallocZeroed size = .ok (filled size []) := by
  unfold mallocZeroed filled
  rw [if_neg (not_lt.mpr h), List.nil_append, List.length_nil, Nat.sub_zero]

theorem fdtBuildInit_written (h : 56 ≤ bufferSize.toInt) (hstring : 0 ≤ stringBufferSize.toInt) :
    fdtBuildInit bufferSize stringBufferSize =
      .ok (written bufferSize stringBufferSize (blobBytes (header 0 0 0 0) []) []) := by
  have hsize : 56 ≤ bufferSize.toNat := by
    have := BitVec.toInt_eq_toNat_cond bufferSize
    split at this <;> omega
  have hzero : filled bufferSize [] =
      filled bufferSize (blobBytes (List.replicate 10 0) []) := by
    have hzeros : blobBytes (List.replicate 10 0) [] = [] ++ List.replicate 56 0 := by decide
    rw [hzeros, filled_zeros hsize]
  have hstore : ∀ (words : List Word) (i : Nat) (v : Word), i < words.length →
      hostStore32 (filled bufferSize (blobBytes words [])) (4 * i) (bigEndian32 v) =
        .ok (filled bufferSize (blobBytes (words.set i v) [])) :=
    fun words i v hi => hostStore32_header hi v
  have halign : alignInt (BitVec.ofNat 32 FdtHeader.size) 4 = 40 := by decide
  have hrsvmap : alignInt ((40 : Word) + 16) 4 = 56 := by decide
  unfold fdtBuildInit
  rw [mallocZeroed_of_nonneg (by omega), mallocZeroed_of_nonneg hstring, bind_ok, bind_ok, hzero,
    FdtHeader.magic, hstore _ 0 _ (by decide), bind_ok,
    FdtHeader.version, hstore _ 5 _ (by decide), bind_ok,
    FdtHeader.lastCompVersion, hstore _ 6 _ (by decide), bind_ok]
  simp only [halign, hrsvmap]
  rw [FdtHeader.offMemRsvmap, hstore _ 4 _ (by decide), bind_ok,
    FdtHeader.offDtStruct, hstore _ 2 _ (by decide), bind_ok]
  rfl

/-- The header `fdt_end` leaves. -/
def finalHeader (body strs : List Byte) : List Word :=
  header (BitVec.ofNat 32 (56 + body.length + 4) + BitVec.ofNat 32 strs.length)
    (BitVec.ofNat 32 (56 + body.length + 4)) (BitVec.ofNat 32 strs.length)
    (BitVec.ofNat 32 (56 + body.length + 4) - 56)

/-- The finished blob: header, structure block with its end token, strings block. -/
def finalBytes (body strs : List Byte) : List Byte :=
  blobBytes (finalHeader body strs) (body ++ tokenBytes FDT_END ++ strs)

theorem length_finalBytes (body strs : List Byte) :
    (finalBytes body strs).length = 56 + body.length + 4 + strs.length := by
  rw [finalBytes, finalHeader, length_blobBytes, List.length_append, List.length_append,
    length_tokenBytes]
  omega

theorem fdtEnd_written (h : 56 + body.length + 4 + strs.length ≤ bufferSize.toNat) :
    fdtEnd (written bufferSize stringBufferSize (blobBytes (header 0 0 0 0) body) strs) =
      .ok (written bufferSize stringBufferSize (finalBytes body strs) strs) := by
  set offset := BitVec.ofNat 32 (56 + body.length + 4) with hoffset
  have hlength := length_blobBytes 0 0 0 0 body
  have htoken : fdtToken FDT_END
      (written bufferSize stringBufferSize (blobBytes (header 0 0 0 0) body) strs) =
        .ok (written bufferSize stringBufferSize
          (blobBytes (header 0 0 0 0) (body ++ tokenBytes FDT_END)) strs) := by
    rw [fdtToken_written FDT_END (by omega)]
    simp only [blobBytes, List.append_assoc]
  have hiptr : BitVec.ofNat 32
      (blobBytes (header 0 0 0 0) (body ++ tokenBytes FDT_END)).length = offset := by
    rw [length_blobBytes, List.length_append, length_tokenBytes, ← Nat.add_assoc]
  have hstore : ∀ (words : List Word) (i : Nat) (v : Word), i < words.length →
      hostStore32 (filled bufferSize (blobBytes words (body ++ tokenBytes FDT_END))) (4 * i)
          (bigEndian32 v) =
        .ok (filled bufferSize (blobBytes (words.set i v) (body ++ tokenBytes FDT_END))) :=
    fun words i v hi => hostStore32_header hi v
  have hload : ∀ (words : List Word) (i : Nat) (hi : i < words.length),
      hostLoad32 (filled bufferSize (blobBytes words (body ++ tokenBytes FDT_END))) (4 * i) =
        .ok (bigEndian32 words[i]) :=
    fun words i hi => hostLoad32_header hi
  have hmax := bufferSize.isLt
  have hoffsetNat : offset.toNat = 56 + body.length + 4 := toNat_ofNat_of_lt (by omega)
  have hstrs : (BitVec.ofNat 32 strs.length).toNat = strs.length := toNat_ofNat_of_lt (by omega)
  have hassert : fdtAssert (BitVec.ofNat 32 strs.length ≤ bufferSize - offset) = .ok () := by
    rw [← hiptr]
    apply assert_room
    rw [length_blobBytes, List.length_append, length_tokenBytes, hstrs]
    omega
  have hcopy : memcpyTo
      (filled bufferSize (blobBytes (finalHeader body strs) (body ++ tokenBytes FDT_END)))
      offset.toNat strs = .ok (filled bufferSize (finalBytes body strs)) := by
    rw [memcpyTo_filled]
    · simp only [finalBytes, blobBytes, List.append_assoc]
    · rw [finalHeader, length_blobBytes, List.length_append, length_tokenBytes, hoffsetNat,
        Nat.add_assoc]
    · rw [hoffsetNat]
      exact h
  unfold fdtEnd
  rw [htoken, bind_ok]
  simp only [written, hiptr]
  rw [FdtHeader.offDtStrings, hstore _ 3 _ (by simp [header]), bind_ok,
    FdtHeader.sizeDtStrings, hstore _ 8 _ (by simp [header]), bind_ok,
    FdtHeader.offDtStruct, hload _ 2 (by simp [header]), bind_ok,
    FdtHeader.sizeDtStruct, hstore _ 9 _ (by simp [header]), bind_ok,
    FdtHeader.totalsize, hstore _ 1 _ (by simp [header]), bind_ok, hassert, bind_ok, hstrs,
    readAt_filled, littleEndian32_bigEndian32]
  change (do
    let buffer ← memcpyTo
      (filled bufferSize (blobBytes (finalHeader body strs) (body ++ tokenBytes FDT_END)))
      offset.toNat strs
    Except.ok
      { buffer, bufferSize
        bufferIptr := offset + BitVec.ofNat 32 strs.length
        stringBuffer := filled stringBufferSize strs
        stringBufferSize
        stringBufferIptr := BitVec.ofNat 32 strs.length : FdtBuildBlob }) = _
  rw [hcopy, bind_ok, length_finalBytes, BitVec.ofNat_add (56 + body.length + 4)]

end Header

/-! ## Scanning -/

/-- The pointer to `offset`. -/
def ptrTo (dtb : DWord) (offset : Nat) : DWord :=
  dtb + BitVec.ofNat 64 offset

section Scan

variable {dtb : DWord} {blob front back : List Byte} {visits : List FdtVisit} {offset : Nat}

theorem ptrTo_sub (h : offset < 2 ^ 64) : (ptrTo dtb offset - dtb).toNat = offset := by
  rw [ptrTo, add_sub_cancel_left]
  exact toNat_ofNat_of_lt h

theorem ptrTo_add (n : Nat) : ptrTo dtb offset + BitVec.ofNat 64 n = ptrTo dtb (offset + n) := by
  rw [ptrTo, ptrTo, BitVec.ofNat_add, add_assoc]

/-- `ALIGNADDR` of a pointer into an aligned blob pads the offset. -/
theorem alignInt_ptrTo (hdtb : dtb.toNat % 4 = 0) (h : offset < 2 ^ 64) :
    alignInt (ptrTo dtb offset) 4 = ptrTo dtb (offset + padding offset) := by
  have halign : alignInt (ptrTo dtb offset) 4 =
      ptrTo dtb offset + BitVec.ofNat 64 (padding (ptrTo dtb offset).toNat) :=
    align_four (by decide) _
  have hpadding : padding (ptrTo dtb offset).toNat = padding offset := by
    rw [ptrTo, BitVec.toNat_add, toNat_ofNat_of_lt h]
    unfold padding
    omega
  rw [halign, hpadding, ptrTo_add]

theorem hostLoad32_at (v : Word) (hoffset : front.length = offset)
    (hblob : front ++ tokenBytes v <+: blob) : hostLoad32 blob offset = .ok (bigEndian32 v) := by
  obtain ⟨back, rfl⟩ := hblob
  rw [← hoffset]
  exact hostLoad32_append front back (bigEndian32 v)

theorem loadString_at (s : CString) (hoffset : front.length = offset)
    (hblob : front ++ (s.bytes ++ [0]) <+: blob) : loadString blob offset = .ok s.bytes := by
  obtain ⟨back, rfl⟩ := hblob
  rw [← hoffset, ← List.append_assoc, List.append_assoc, List.singleton_append]
  exact loadString_append front back s

theorem append_prefix_append {items items' : List Byte} (h : items <+: items') :
    front ++ items <+: front ++ items' :=
  (List.prefix_append_right_inj front).mpr h

theorem scan_beginNode (name : CString) (nameoff : Nat)
    (hdtb : dtb.toNat % 4 = 0) (hfront : front.length % 4 = 0) (hsize : blob.length < 2 ^ 31)
    (hblob : front ++ Token.bytes nameoff (.beginNode name) <+: blob) :
    scanFdtToken dtb blob ⟨ptrTo dtb front.length, false, visits⟩ =
      .ok ⟨ptrTo dtb (front ++ Token.bytes nameoff (.beginNode name)).length, false,
        visits ++ [.beginNode name.bytes]⟩ := by
  set n := 4 + name.bytes.length + 1 with hn
  have hlength : (tokenBytes FDT_BEGIN_NODE ++ name.bytes ++ [0]).length = n := by
    simp only [List.length_append, length_tokenBytes, List.length_singleton, hn]
  have hall : (Token.bytes nameoff (.beginNode name)).length = n + padding n := by
    rw [Token.bytes, length_padded, hlength]
  have hbound := hblob.length_le
  rw [List.length_append, hall] at hbound
  have hstart : front ++ tokenBytes FDT_BEGIN_NODE ++ (name.bytes ++ [0]) <+: blob := by
    apply List.IsPrefix.trans _ hblob
    rw [List.append_assoc, ← List.append_assoc _ name.bytes]
    exact append_prefix_append (List.prefix_append ..)
  have htoken : hostLoad32 blob front.length = .ok (bigEndian32 FDT_BEGIN_NODE) :=
    hostLoad32_at FDT_BEGIN_NODE rfl ((List.prefix_append ..).trans hstart)
  have hname : loadString blob (front.length + 4) = .ok name.bytes :=
    loadString_at name (by simp) hstart
  have hend : front.length + 4 + (name.bytes.length + 1) +
      padding (front.length + 4 + (name.bytes.length + 1)) =
        (front ++ Token.bytes nameoff (.beginNode name)).length := by
    have hsum : front.length + 4 + (name.bytes.length + 1) = front.length + n := by omega
    rw [hsum, padding_add_of_mod hfront, List.length_append, hall, Nat.add_assoc]
  have hfour : ptrTo dtb front.length + 4 = ptrTo dtb (front.length + 4) := ptrTo_add 4
  unfold scanFdtToken
  simp only [ptrTo_sub (show front.length < 2 ^ 64 by omega), htoken, bind_ok,
    littleEndian32_bigEndian32, if_true, hfour,
    ptrTo_sub (show front.length + 4 < 2 ^ 64 by omega), hname, ptrTo_add]
  rw [alignInt_ptrTo hdtb (by omega), hend]
  rfl

/-- An `int` length that fits. -/
theorem signExtend_length {n : Nat} (h : n < 2 ^ 31) :
    (BitVec.ofNat 32 n).signExtend 64 = BitVec.ofNat 64 n := by
  have hn : (BitVec.ofNat 32 n).toNat = n := toNat_ofNat_of_lt (by omega)
  have hmsb : (BitVec.ofNat 32 n).msb = false := by
    rw [BitVec.msb_eq_false_iff_two_mul_lt, hn]
    omega
  rw [BitVec.signExtend_eq_setWidth_of_msb_false hmsb]
  apply BitVec.eq_of_toNat_eq
  rw [BitVec.toNat_setWidth, hn, BitVec.toNat_ofNat]

theorem scan_prop {names : List Byte} {off : Nat} (name : CString) (value : List Byte)
    (nameoff : Nat)
    (hdtb : dtb.toNat % 4 = 0) (hfront : front.length % 4 = 0) (hsize : blob.length < 2 ^ 31)
    (hblob : front ++ Token.bytes nameoff (.prop name value) <+: blob)
    (hoff : hostLoad32 blob FdtHeader.offDtStrings = .ok (bigEndian32 (BitVec.ofNat 32 off)))
    (hnames : names.length = off + nameoff) (hname : names ++ (name.bytes ++ [0]) <+: blob) :
    scanFdtToken dtb blob ⟨ptrTo dtb front.length, false, visits⟩ =
      .ok ⟨ptrTo dtb (front ++ Token.bytes nameoff (.prop name value)).length, false,
        visits ++ [.prop name.bytes (BitVec.ofNat 32 value.length) value]⟩ := by
  set n := 4 + 4 + 4 + value.length with hn
  have hlength : (tokenBytes FDT_PROP ++ tokenBytes (BitVec.ofNat 32 value.length) ++
      tokenBytes (BitVec.ofNat 32 nameoff) ++ value).length = n := by
    simp only [List.length_append, length_tokenBytes, hn]
  have hall : (Token.bytes nameoff (.prop name value)).length = n + padding n := by
    rw [Token.bytes, length_padded, hlength]
  have hbound := hblob.length_le
  rw [List.length_append, hall] at hbound
  have hnamesBound := hname.length_le
  rw [List.length_append] at hnamesBound
  have hstart : front ++ tokenBytes FDT_PROP ++ tokenBytes (BitVec.ofNat 32 value.length) ++
      tokenBytes (BitVec.ofNat 32 nameoff) ++ value <+: blob := by
    apply List.IsPrefix.trans _ hblob
    simp only [List.append_assoc]
    apply append_prefix_append
    rw [Token.bytes, padded]
    simp only [List.append_assoc]
    exact append_prefix_append (append_prefix_append (append_prefix_append
      (List.prefix_append ..)))
  have hword := (List.prefix_append ..).trans hstart
  have hlen := (List.prefix_append ..).trans hword
  have htoken : hostLoad32 blob front.length = .ok (bigEndian32 FDT_PROP) :=
    hostLoad32_at FDT_PROP rfl ((List.prefix_append ..).trans hlen)
  have hlenLoad : hostLoad32 blob (front.length + 4) =
      .ok (bigEndian32 (BitVec.ofNat 32 value.length)) := hostLoad32_at _ (by simp) hlen
  have hoffLoad : hostLoad32 blob (front.length + 4 + 4) =
      .ok (bigEndian32 (BitVec.ofNat 32 nameoff)) := hostLoad32_at _ (by simp) hword
  have hvalue : (blob.drop (front.length + 4 + 8)).take value.length = value := by
    have hlead : (front ++ tokenBytes FDT_PROP ++ tokenBytes (BitVec.ofNat 32 value.length) ++
        tokenBytes (BitVec.ofNat 32 nameoff)).length = front.length + 4 + 8 := by simp
    obtain ⟨back, rfl⟩ := hstart
    rw [← hlead, List.append_assoc _ value, List.drop_left, List.take_left]
  have hstring : loadString blob (off + nameoff) = .ok name.bytes := loadString_at name hnames hname
  have hend : front.length + 4 + 8 + value.length +
      padding (front.length + 4 + 8 + value.length) =
        (front ++ Token.bytes nameoff (.prop name value)).length := by
    have hsum : front.length + 4 + 8 + value.length = front.length + n := by omega
    rw [hsum, padding_add_of_mod hfront, List.length_append, hall, Nat.add_assoc]
  have hfour : ptrTo dtb front.length + 4 = ptrTo dtb (front.length + 4) := ptrTo_add 4
  have hoffNat : (BitVec.ofNat 32 off).toNat = off := toNat_ofNat_of_lt (by omega)
  have hnameoffNat : (BitVec.ofNat 32 nameoff).toNat = nameoff := toNat_ofNat_of_lt (by omega)
  have hvalueNat : (BitVec.ofNat 32 value.length).toNat = value.length :=
    toNat_ofNat_of_lt (by omega)
  have hother : ¬FDT_PROP = FDT_BEGIN_NODE := by decide
  unfold scanFdtToken
  simp only [ptrTo_sub (show front.length < 2 ^ 64 by omega), htoken, bind_ok,
    littleEndian32_bigEndian32, if_neg hother, if_true, hfour,
    ptrTo_sub (show front.length + 4 < 2 ^ 64 by omega), hlenLoad, hoff, hoffLoad, hoffNat,
    hnameoffNat, hstring, ptrTo_add, FDT_PROPERTY_SIZE,
    ptrTo_sub (show front.length + 4 + 8 < 2 ^ 64 by omega), hvalueNat, hvalue,
    signExtend_length (show value.length < 2 ^ 31 by omega)]
  rw [alignInt_ptrTo hdtb (by omega), hend]
  rfl

theorem scan_nop (h : front.length < 2 ^ 31) (hblob : front ++ tokenBytes FDT_NOP <+: blob) :
    scanFdtToken dtb blob ⟨ptrTo dtb front.length, false, visits⟩ =
      .ok ⟨ptrTo dtb (front ++ tokenBytes FDT_NOP).length, false, visits ++ [.nop]⟩ := by
  have hfour : ptrTo dtb front.length + 4 = ptrTo dtb (front.length + 4) := ptrTo_add 4
  unfold scanFdtToken
  simp only [ptrTo_sub (show front.length < 2 ^ 64 by omega), hostLoad32_at FDT_NOP rfl hblob, bind_ok,
    littleEndian32_bigEndian32, hfour, List.length_append, length_tokenBytes]
  rfl

theorem scan_endNode (h : front.length < 2 ^ 31)
    (hblob : front ++ tokenBytes FDT_END_NODE <+: blob) :
    scanFdtToken dtb blob ⟨ptrTo dtb front.length, false, visits⟩ =
      .ok ⟨ptrTo dtb (front ++ tokenBytes FDT_END_NODE).length, false,
        visits ++ [.endNode]⟩ := by
  have hfour : ptrTo dtb front.length + 4 = ptrTo dtb (front.length + 4) := ptrTo_add 4
  unfold scanFdtToken
  simp only [ptrTo_sub (show front.length < 2 ^ 64 by omega), hostLoad32_at FDT_END_NODE rfl hblob,
    bind_ok, littleEndian32_bigEndian32, hfour, List.length_append, length_tokenBytes]
  rfl

theorem scan_end (h : front.length < 2 ^ 31) (hblob : front ++ tokenBytes FDT_END <+: blob) :
    scanFdtToken dtb blob ⟨ptrTo dtb front.length, false, visits⟩ =
      .ok ⟨ptrTo dtb (front ++ tokenBytes FDT_END).length, true, visits ++ [.fdtEnd]⟩ := by
  have hfour : ptrTo dtb front.length + 4 = ptrTo dtb (front.length + 4) := ptrTo_add 4
  unfold scanFdtToken
  simp only [ptrTo_sub (show front.length < 2 ^ 64 by omega), hostLoad32_at FDT_END rfl hblob, bind_ok,
    littleEndian32_bigEndian32, hfour, List.length_append, length_tokenBytes]
  rfl

/-- One round sees the token it stands at. -/
theorem scan_token {names : List Byte} {off : Nat} (token : Token) (nameoff : Nat)
    (hdtb : dtb.toNat % 4 = 0) (hfront : front.length % 4 = 0) (hsize : blob.length < 2 ^ 31)
    (hblob : front ++ token.bytes nameoff <+: blob)
    (hoff : hostLoad32 blob FdtHeader.offDtStrings = .ok (bigEndian32 (BitVec.ofNat 32 off)))
    (hnames : names.length = off + nameoff) (hstring : names ++ token.string <+: blob) :
    scanFdtToken dtb blob ⟨ptrTo dtb front.length, false, visits⟩ =
      .ok ⟨ptrTo dtb (front ++ token.bytes nameoff).length, false, visits ++ [token.visit]⟩ := by
  have hbound := hblob.length_le
  rw [List.length_append] at hbound
  cases token with
  | beginNode name => exact scan_beginNode name nameoff hdtb hfront hsize hblob
  | prop name value =>
      exact scan_prop name value nameoff hdtb hfront hsize hblob hoff hnames hstring
  | nop => exact scan_nop (by omega) hblob
  | endNode => exact scan_endNode (by omega) hblob

/-- The loop sees the tokens it stands at and the end token behind them. -/
theorem scanLoop_tokens {names : List Byte} {off rounds : Nat} (tokens : List Token)
    (nameoff : Nat) (hdtb : dtb.toNat % 4 = 0) (hfront : front.length % 4 = 0)
    (hsize : blob.length < 2 ^ 31)
    (hblob : front ++ (structBytes nameoff tokens ++ tokenBytes FDT_END) <+: blob)
    (hoff : hostLoad32 blob FdtHeader.offDtStrings = .ok (bigEndian32 (BitVec.ofNat 32 off)))
    (hnames : names.length = off + nameoff) (hstrings : names ++ stringBytes tokens <+: blob)
    (hrounds : tokens.length < rounds) :
    scanLoop dtb blob rounds ⟨ptrTo dtb front.length, false, visits⟩ =
      .ok ⟨ptrTo dtb (front ++ (structBytes nameoff tokens ++ tokenBytes FDT_END)).length, true,
        visits ++ (tokens.map Token.visit ++ [.fdtEnd])⟩ := by
  induction tokens generalizing front names nameoff visits rounds with
  | nil =>
      obtain ⟨rounds, rfl⟩ : ∃ k, rounds = k + 1 := ⟨rounds - 1, by omega⟩
      have hbound := hblob.length_le
      rw [List.length_append] at hbound
      rw [structBytes, List.nil_append] at hblob ⊢
      rw [scanLoop, if_neg Bool.false_ne_true, scan_end (by omega) hblob, bind_ok]
      cases rounds with
      | zero => rfl
      | succ rounds => rfl
  | cons token rest ih =>
      obtain ⟨rounds, rfl⟩ : ∃ k, rounds = k + 1 := ⟨rounds - 1, by omega⟩
      rw [stringBytes_cons, ← List.append_assoc] at hstrings
      rw [structBytes, List.append_assoc, ← List.append_assoc front] at hblob ⊢
      have hnext : (front ++ token.bytes nameoff).length % 4 = 0 := by
        have := length_bytes_mod nameoff token
        rw [List.length_append]
        omega
      have hnamesNext : (names ++ token.string).length =
          off + (nameoff + token.string.length) := by
        rw [List.length_append, hnames, Nat.add_assoc]
      rw [List.length_cons] at hrounds
      rw [scanLoop, if_neg Bool.false_ne_true,
        scan_token token nameoff hdtb hfront hsize ((List.prefix_append ..).trans hblob) hoff hnames
          ((List.prefix_append ..).trans hstrings),
        bind_ok, ih _ hnext hblob hnamesNext hstrings (by omega)]
      simp only [List.map_cons, List.append_assoc, List.cons_append, List.nil_append]

end Scan

/-! ## The sizes of a tree -/

def Token.size : Token → Nat
  | beginNode name => 4 + name.strlen + 1 + padding (4 + name.strlen + 1)
  | prop _ value =>
      4 + FDT_PROPERTY_SIZE + value.length + padding (4 + FDT_PROPERTY_SIZE + value.length)
  | nop => 4
  | endNode => 4

/-- The bytes of the structure block, without the end token. -/
def Forest.structSize : Forest → Nat
  | nil => 0
  | node name items rest =>
      (Token.beginNode name).size + items.structSize + Token.endNode.size + rest.structSize
  | prop name value rest => (Token.prop name value).size + rest.structSize
  | nop rest => Token.nop.size + rest.structSize

/-- The bytes of the property names, with their terminators. -/
def Forest.nameBytes : Forest → Nat
  | nil => 0
  | node _ items rest => items.nameBytes + rest.nameBytes
  | prop name _ rest => name.strlen + 1 + rest.nameBytes
  | nop rest => rest.nameBytes

theorem length_bytes (nameoff : Nat) (token : Token) :
    (token.bytes nameoff).length = token.size := by
  cases token with
  | beginNode name =>
      rw [Token.bytes, length_padded]
      simp only [List.length_append, length_tokenBytes, List.length_singleton]
      rfl
  | prop name value =>
      rw [Token.bytes, length_padded]
      simp only [List.length_append, length_tokenBytes]
      rfl
  | nop => rfl
  | endNode => rfl

theorem length_structBytes (nameoff : Nat) (tokens : List Token) :
    (structBytes nameoff tokens).length = (tokens.map Token.size).sum := by
  induction tokens generalizing nameoff with
  | nil => rfl
  | cons token rest ih =>
      rw [structBytes, List.length_append, length_bytes, ih, List.map_cons, List.sum_cons]

theorem structSize_eq (forest : Forest) :
    forest.structSize = (forest.tokens.map Token.size).sum := by
  induction forest with
  | nil => rfl
  | node name items rest ihitems ihrest =>
      simp only [Forest.structSize, Forest.tokens, List.map_cons, List.map_append, List.sum_cons,
        List.sum_append, ihitems, ihrest]
      omega
  | prop name value rest ih =>
      simp only [Forest.structSize, Forest.tokens, List.map_cons, List.sum_cons, ih]
  | nop rest ih =>
      simp only [Forest.structSize, Forest.tokens, List.map_cons, List.sum_cons, ih]

theorem nameBytes_eq (forest : Forest) :
    forest.nameBytes = (stringBytes forest.tokens).length := by
  unfold stringBytes
  induction forest with
  | nil => rfl
  | node name items rest ihitems ihrest =>
      simp only [Forest.nameBytes, Forest.tokens, List.flatMap_cons, List.flatMap_append,
        List.length_append, Token.string, List.length_nil, ihitems, ihrest]
      omega
  | prop name value rest ih =>
      simp only [Forest.nameBytes, Forest.tokens, List.flatMap_cons, List.length_append,
        Token.string, List.length_singleton, ih]
      rfl
  | nop rest ih =>
      simp only [Forest.nameBytes, Forest.tokens, List.flatMap_cons, List.length_append,
        Token.string, List.length_nil, ih]
      omega

/-! ## The round trip -/

/--
The encoding fits: header, reservations, structure block, end token and names
in one buffer, the names alone in the other.
-/
structure Fits (forest : Forest) (bufferSize stringBufferSize : Word) : Prop where
  buffer : (56 + forest.structSize + 4 + forest.nameBytes : Int) ≤ bufferSize.toInt
  stringBuffer : (forest.nameBytes : Int) ≤ stringBufferSize.toInt

/-- A header field of the finished blob. -/
def headerField (blob : FdtBuildBlob) (offset : Nat) : Except Abort Word := do
  let value ← hostLoad32 blob.buffer offset
  pure (littleEndian32 value)

/-- The bytes the builder produced. -/
def FdtBuildBlob.produced (blob : FdtBuildBlob) : List Byte :=
  blob.buffer.take blob.bufferIptr.toNat

/--
The forest is emitted, and a scan of the blob sees its tokens in order and
stops at the end token, right before the strings block.
-/
def RoundTrips (forest : Forest) (bufferSize stringBufferSize : Word) (dtb : DWord) : Prop :=
  ∃ blob offStruct sizeStruct offStrings sizeStrings totalsize,
    forest.build bufferSize stringBufferSize = .ok blob ∧
    headerField blob FdtHeader.offDtStruct = .ok offStruct ∧
    headerField blob FdtHeader.sizeDtStruct = .ok sizeStruct ∧
    headerField blob FdtHeader.offDtStrings = .ok offStrings ∧
    headerField blob FdtHeader.sizeDtStrings = .ok sizeStrings ∧
    headerField blob FdtHeader.totalsize = .ok totalsize ∧
    (∀ rounds, forest.tokens.length < rounds →
      scanFdtTokens rounds dtb (FdtBuildBlob.produced blob) =
        .ok
          { ptr := ptrTo dtb (offStruct.toNat + sizeStruct.toNat)
            toStop := true
            visits := forest.tokens.map Token.visit ++ [.fdtEnd] }) ∧
    offStruct.toNat + sizeStruct.toNat = offStrings.toNat ∧
    offStrings.toNat + sizeStrings.toNat = totalsize.toNat ∧
    totalsize.toNat = (FdtBuildBlob.produced blob).length

/-- A nonnegative `int`, as a number. -/
theorem toNat_of_nonneg {x : Word} (h : 0 ≤ x.toInt) :
    (x.toNat : Int) = x.toInt ∧ x.toNat < 2 ^ 31 := by
  have hcond := BitVec.toInt_eq_toNat_cond x
  have hlt := x.isLt
  split at hcond <;> omega

section RoundTrip

variable {forest : Forest} {bufferSize stringBufferSize : Word} {dtb : DWord}

/-- What the two bounds say about the encoding. -/
theorem Fits.bounds (hfits : Fits forest bufferSize stringBufferSize) :
    56 + (structBytes 0 forest.tokens).length + 4 + (stringBytes forest.tokens).length ≤
        bufferSize.toNat ∧
      bufferSize.toNat < 2 ^ 31 ∧
      (stringBytes forest.tokens).length ≤ stringBufferSize.toNat := by
  have hbuffer := hfits.buffer
  have hstring := hfits.stringBuffer
  obtain ⟨hsize, hlt⟩ := toNat_of_nonneg (x := bufferSize) (by omega)
  obtain ⟨hstringSize, -⟩ := toNat_of_nonneg (x := stringBufferSize) (by omega)
  rw [length_structBytes, ← structSize_eq, ← nameBytes_eq]
  omega

/-- The builder up to the end of the structure block. -/
theorem build_eq (hfits : Fits forest bufferSize stringBufferSize) :
    forest.build bufferSize stringBufferSize =
      emitAll forest.tokens
          (written bufferSize stringBufferSize (blobBytes (header 0 0 0 0) []) []) >>= fdtEnd := by
  have hbuffer := hfits.buffer
  have hstring := hfits.stringBuffer
  rw [Forest.build, fdtBuildInit_written (by omega) (by omega), bind_ok, emit_eq_emitAll]

theorem build_written (hfits : Fits forest bufferSize stringBufferSize)
    (hnames : forest.nameBytes = 0 ∨ forest.nameBytes < stringBufferSize.toNat) :
    forest.build bufferSize stringBufferSize =
      .ok (written bufferSize stringBufferSize
        (finalBytes (structBytes 0 forest.tokens) (stringBytes forest.tokens))
        (stringBytes forest.tokens)) := by
  obtain ⟨hbuffer, -, -⟩ := hfits.bounds
  rw [nameBytes_eq] at hnames
  have hlength := length_blobBytes 0 0 0 0 []
  have hemit : emitAll forest.tokens
      (written bufferSize stringBufferSize (blobBytes (header 0 0 0 0) []) []) =
        .ok (written bufferSize stringBufferSize
          (blobBytes (header 0 0 0 0) [] ++ structBytes 0 forest.tokens)
          ([] ++ stringBytes forest.tokens)) := by
    apply emitAll_written forest.tokens
    · rw [hlength]
      simp only [List.length_nil]
      omega
    · rw [List.length_nil, Nat.zero_add, ← List.length_eq_zero_iff]
      exact hnames
  have hbody : blobBytes (header 0 0 0 0) [] ++ structBytes 0 forest.tokens =
      blobBytes (header 0 0 0 0) (structBytes 0 forest.tokens) := by
    simp only [blobBytes, List.append_nil, List.append_assoc]
  rw [build_eq hfits, hemit, bind_ok, hbody, List.nil_append]
  exact fdtEnd_written hbuffer

/-- Names that just fill the string buffer end in the assertion. -/
theorem build_full (hfits : Fits forest bufferSize stringBufferSize)
    (hnames : ¬(forest.nameBytes = 0 ∨ forest.nameBytes < stringBufferSize.toNat)) :
    forest.build bufferSize stringBufferSize = .error .exit := by
  obtain ⟨hbuffer, -, hstring⟩ := hfits.bounds
  rw [nameBytes_eq, not_or, List.length_eq_zero_iff] at hnames
  have hlength := length_blobBytes 0 0 0 0 []
  have hemit : emitAll forest.tokens
      (written bufferSize stringBufferSize (blobBytes (header 0 0 0 0) []) []) =
        .error .exit := by
    apply emitAll_full forest.tokens _ hnames.1
    · rw [List.length_nil]
      omega
    · rw [hlength]
      simp only [List.length_nil]
      omega
  rw [build_eq hfits, hemit]
  rfl

/-- The fields of the finished header. -/
theorem headerField_written {body strs : List Byte} {i : Nat}
    (hi : i < (finalHeader body strs).length) :
    headerField (written bufferSize stringBufferSize (finalBytes body strs) strs) (4 * i) =
      .ok (finalHeader body strs)[i] := by
  unfold headerField written finalBytes blobBytes
  simp only
  rw [hostLoad32_header hi, bind_ok, littleEndian32_bigEndian32]
  rfl

/-- A scan of the finished blob. -/
theorem scan_finalBytes (tokens : List Token) (hdtb : dtb.toNat % 4 = 0)
    (hsize : (finalBytes (structBytes 0 tokens) (stringBytes tokens)).length < 2 ^ 31)
    {rounds : Nat} (hrounds : tokens.length < rounds) :
    scanFdtTokens rounds dtb (finalBytes (structBytes 0 tokens) (stringBytes tokens)) =
      .ok ⟨ptrTo dtb (56 + (structBytes 0 tokens).length + 4), true,
        tokens.map Token.visit ++ [.fdtEnd]⟩ := by
  set body := structBytes 0 tokens with hbody
  set strs := stringBytes tokens with hstrs
  obtain ⟨front, hfront⟩ : ∃ front, front = wordsBytes (finalHeader body strs) ++ reservations :=
    ⟨_, rfl⟩
  have hlength : front.length = 56 := by
    rw [hfront, List.length_append, length_wordsBytes]
    rfl
  have hblob : finalBytes body strs = front ++ (body ++ tokenBytes FDT_END) ++ strs := by
    simp only [finalBytes, blobBytes, hfront, List.append_assoc]
  have hload : ∀ i (hi : i < (finalHeader body strs).length),
      hostLoad32 (finalBytes body strs) (4 * i) = .ok (bigEndian32 (finalHeader body strs)[i]) :=
    fun i hi => hostLoad32_words hi _
  have hoff : hostLoad32 (finalBytes body strs) FdtHeader.offDtStrings =
      .ok (bigEndian32 (BitVec.ofNat 32 (56 + body.length + 4))) :=
    hload 3 (by simp [finalHeader, header])
  have hnames : (front ++ (body ++ tokenBytes FDT_END)).length = 56 + body.length + 4 := by
    rw [List.length_append, List.length_append, hlength, length_tokenBytes, Nat.add_assoc]
  have hstruct : front ++ (body ++ tokenBytes FDT_END) <+: finalBytes body strs := by
    rw [hblob]
    exact List.prefix_append ..
  have hstrings : front ++ (body ++ tokenBytes FDT_END) ++ strs <+: finalBytes body strs := by
    rw [hblob]
  have hloop : scanLoop dtb (finalBytes body strs) rounds ⟨ptrTo dtb front.length, false, []⟩ =
      .ok ⟨ptrTo dtb (front ++ (body ++ tokenBytes FDT_END)).length, true,
        [] ++ (tokens.map Token.visit ++ [.fdtEnd])⟩ :=
    scanLoop_tokens tokens 0 hdtb (by rw [hlength]) hsize hstruct hoff hnames hstrings hrounds
  rw [hnames, hlength, List.nil_append] at hloop
  have hstart : hostLoad32 (finalBytes body strs) FdtHeader.offDtStruct = .ok (bigEndian32 56) :=
    hload 2 (by simp [finalHeader, header])
  unfold scanFdtTokens
  rw [hstart, bind_ok, littleEndian32_bigEndian32]
  exact hloop

/--
A forest that fits makes the round trip if and only if it has no property, or
its names leave at least one byte of the string buffer unused.
-/
theorem roundTrips_iff (hfits : Fits forest bufferSize stringBufferSize)
    (hdtb : dtb.toNat % 4 = 0) :
    RoundTrips forest bufferSize stringBufferSize dtb ↔
      forest.nameBytes = 0 ∨ forest.nameBytes < stringBufferSize.toNat := by
  constructor
  · rintro ⟨blob, _, _, _, _, _, hbuild, -⟩
    by_contra hnames
    rw [build_full hfits hnames] at hbuild
    cases hbuild
  · intro hnames
    obtain ⟨hbuffer, hmax, -⟩ := hfits.bounds
    have hbuild := build_written hfits hnames
    set body := structBytes 0 forest.tokens with hbody
    set strs := stringBytes forest.tokens with hstrs
    have hfield : ∀ i (hi : i < (finalHeader body strs).length),
        headerField (written bufferSize stringBufferSize (finalBytes body strs) strs) (4 * i) =
          .ok (finalHeader body strs)[i] :=
      fun i hi => headerField_written hi
    have hlength := length_finalBytes body strs
    have hproduced : FdtBuildBlob.produced
        (written bufferSize stringBufferSize (finalBytes body strs) strs) =
          finalBytes body strs := by
      have hiptr := toNat_iptr bufferSize (hlength.trans_le hbuffer)
      unfold FdtBuildBlob.produced written
      rw [hiptr]
      exact take_filled bufferSize _
    have hoffset : (BitVec.ofNat 32 (56 + body.length + 4)).toNat = 56 + body.length + 4 :=
      toNat_ofNat_of_lt (by omega)
    have hstrings : (BitVec.ofNat 32 strs.length).toNat = strs.length :=
      toNat_ofNat_of_lt (by omega)
    have htotal : (BitVec.ofNat 32 (56 + body.length + 4) +
        BitVec.ofNat 32 strs.length).toNat = 56 + body.length + 4 + strs.length := by
      rw [← BitVec.ofNat_add]
      exact toNat_ofNat_of_lt (by omega)
    have hend : (56 : Word).toNat + (BitVec.ofNat 32 (56 + body.length + 4) - 56).toNat =
        56 + body.length + 4 := by
      have hstruct : BitVec.ofNat 32 (56 + body.length + 4) - 56 =
          BitVec.ofNat 32 (body.length + 4) := by
        rw [Nat.add_assoc, BitVec.ofNat_add]
        exact add_sub_cancel_left ..
      rw [hstruct, toNat_ofNat_of_lt (by omega)]
      exact (Nat.add_assoc ..).symm
    refine ⟨_, 56, BitVec.ofNat 32 (56 + body.length + 4) - 56,
      BitVec.ofNat 32 (56 + body.length + 4), BitVec.ofNat 32 strs.length,
      BitVec.ofNat 32 (56 + body.length + 4) + BitVec.ofNat 32 strs.length, hbuild,
      hfield 2 (by simp [finalHeader, header]), hfield 9 (by simp [finalHeader, header]),
      hfield 3 (by simp [finalHeader, header]), hfield 8 (by simp [finalHeader, header]),
      hfield 1 (by simp [finalHeader, header]), ?_, ?_, ?_, ?_⟩
    · intro rounds hrounds
      have hsize : (finalBytes body strs).length < 2 ^ 31 := by omega
      rw [hproduced, hend]
      exact scan_finalBytes forest.tokens hdtb hsize hrounds
    · rw [hend, hoffset]
    · rw [hoffset, hstrings, htotal]
    · rw [hproduced, hlength, htotal]

end RoundTrip

/-! ## A node with one property -/

/-- The root node with a property `a` of no value. -/
def oneProperty : Forest :=
  .node ⟨[], by decide⟩ (.prop ⟨[0x61], by decide⟩ [] .nil) .nil

theorem roundTrips_oneProperty : RoundTrips oneProperty 128 3 0x1000 := by
  apply (roundTrips_iff _ _).mpr
  · exact .inr (by decide)
  · exact ⟨by decide, by decide⟩
  · decide

/-- The name and its terminator take two bytes, and a buffer of two bytes is refused. -/
theorem oneProperty_refused :
    ¬∀ (forest : Forest) (bufferSize stringBufferSize : Word) (dtb : DWord),
      Fits forest bufferSize stringBufferSize → dtb.toNat % 4 = 0 →
        RoundTrips forest bufferSize stringBufferSize dtb := by
  intro hclaim
  have hfits : Fits oneProperty 128 2 := ⟨by decide, by decide⟩
  obtain ⟨blob, _, _, _, _, _, hbuild, -⟩ := hclaim oneProperty 128 2 0x1000 hfits (by decide)
  have hexit : oneProperty.build 128 2 = .error .exit := build_full hfits (by decide)
  rw [hexit] at hbuild
  cases hbuild

end Zelda.Proofs.DeviceTree
