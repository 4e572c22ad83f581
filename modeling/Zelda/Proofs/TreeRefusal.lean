import Zelda.Proofs.DeviceTree
/-!
# Trees that do not fit

The builder checks the room for every token before it writes.  A tree that
fits is written; any other ends in one of its assertions, before a byte is
written outside a buffer.
-/

namespace Zelda.Proofs.TreeRefusal

open Zelda.Vmm
open Zelda.Lib.ByteBuffer
open Zelda.Proofs.DeviceTree

/-- Names and values whose rounded sizes are still words. -/
def Short : Token → Prop
  | .beginNode name => name.strlen < 2 ^ 32 - 64
  | .prop name value => name.strlen < 2 ^ 32 - 64 ∧ value.length < 2 ^ 32 - 64
  | .nop => True
  | .endNode => True

section Room

variable {size : Word} {bytes : List Byte}

theorem assert_refused (needed : Word) (hbytes : bytes.length ≤ size.toNat)
    (h : size.toNat < bytes.length + needed.toNat) :
    fdtAssert (needed ≤ size - BitVec.ofNat 32 bytes.length) = .error .exit := by
  have hroom := toNat_room hbytes
  have hlt : ¬needed ≤ size - BitVec.ofNat 32 bytes.length := by
    rw [BitVec.le_def, hroom]
    omega
  unfold fdtAssert
  rw [decide_eq_false hlt]
  rfl

theorem padding_le (n : Nat) : padding n ≤ 3 := by
  unfold padding
  omega

/-- The assertion on the room for what is rounded up to whole words. -/
theorem assert_aligned_refused {n : Nat} (hn : n < 2 ^ 32 - 4) (hbytes : bytes.length ≤ size.toNat)
    (h : size.toNat < bytes.length + (n + padding n)) :
    fdtAssert (alignInt (BitVec.ofNat 32 n) 4 ≤ size - BitVec.ofNat 32 bytes.length) =
      .error .exit := by
  have hpadding := padding_le n
  have halign : (alignInt (BitVec.ofNat 32 n) 4).toNat = n + padding n :=
    toNat_alignInt (by omega)
  apply assert_refused _ hbytes
  rw [halign]
  exact h

end Room

section Emit

variable {bufferSize stringBufferSize : Word} {bytes strs : List Byte}

theorem fdtToken_refused (token : Word) (hbytes : bytes.length ≤ bufferSize.toNat)
    (h : bufferSize.toNat < bytes.length + 4) :
    fdtToken token (written bufferSize stringBufferSize bytes strs) = .error .exit := by
  have hassert := assert_refused 4 hbytes h
  unfold fdtToken written
  simp only [hassert]
  rfl

theorem fdtBeginNode_refused (name : CString) (hname : name.strlen < 2 ^ 32 - 64)
    (hbytes : bytes.length ≤ bufferSize.toNat)
    (h : bufferSize.toNat < bytes.length + (Token.beginNode name).size) :
    fdtBeginNode (written bufferSize stringBufferSize bytes strs) name = .error .exit := by
  have hassert := assert_aligned_refused (n := 4 + name.strlen + 1) (by omega) hbytes h
  unfold fdtBeginNode written
  simp only [hassert]
  rfl

/-- A value without room in the structure block. -/
theorem fdtProp_refused (name : CString) (value : List Byte) (hvalue : value.length < 2 ^ 32 - 64)
    (hbytes : bytes.length ≤ bufferSize.toNat)
    (h : bufferSize.toNat < bytes.length + (Token.prop name value).size) :
    fdtProp (written bufferSize stringBufferSize bytes strs) name
        (BitVec.ofNat 32 value.length) value = .error .exit := by
  have hlength : (BitVec.ofNat 32 value.length).toNat = value.length :=
    toNat_ofNat_of_lt (by omega)
  have hassert := assert_aligned_refused (n := 4 + FDT_PROPERTY_SIZE + value.length)
    (by unfold FDT_PROPERTY_SIZE; omega) hbytes h
  unfold fdtProp written
  simp only [hlength, hassert]
  rfl

/-- A name without room in the strings block. -/
theorem fdtProp_name_refused (name : CString) (value : List Byte) (hname : name.strlen < 2 ^ 32 - 64)
    (hstrs : strs.length ≤ stringBufferSize.toNat)
    (h : bytes.length + (Token.prop name value).size ≤ bufferSize.toNat)
    (hfull : stringBufferSize.toNat ≤ strs.length + (name.strlen + 1)) :
    fdtProp (written bufferSize stringBufferSize bytes strs) name
        (BitVec.ofNat 32 value.length) value = .error .exit := by
  have hsize : (BitVec.ofNat 32 (name.strlen + 1)).toNat = name.strlen + 1 :=
    toNat_ofNat_of_lt (by omega)
  have hroom := toNat_room hstrs
  have hlt : ¬BitVec.ofNat 32 (name.strlen + 1) <
      stringBufferSize - BitVec.ofNat 32 strs.length := by
    rw [BitVec.lt_def, hsize, hroom]
    omega
  have hassert : fdtAssert (BitVec.ofNat 32 (name.strlen + 1) <
      stringBufferSize - BitVec.ofNat 32 strs.length) = .error .exit := by
    unfold fdtAssert
    rw [decide_eq_false hlt]
    rfl
  rw [prop_struct_written name value (by rwa [length_bytes])]
  simp only [hassert]
  rfl

/-- One token has room in both blocks. -/
def HasRoom (bufferSize stringBufferSize : Word) (bytes strs : List Byte) (token : Token) : Prop :=
  bytes.length + token.size ≤ bufferSize.toNat ∧
    (token.string = [] ∨ strs.length + token.string.length < stringBufferSize.toNat)

theorem emit_refused {token : Token} (hshort : Short token)
    (hbytes : bytes.length ≤ bufferSize.toNat) (hstrs : strs.length ≤ stringBufferSize.toNat)
    (h : ¬HasRoom bufferSize stringBufferSize bytes strs token) :
    token.emit (written bufferSize stringBufferSize bytes strs) = .error .exit := by
  unfold HasRoom at h
  by_cases hroom : bytes.length + token.size ≤ bufferSize.toNat
  · -- only a property has a name that can be too long
    have hstring : ¬(token.string = [] ∨
        strs.length + token.string.length < stringBufferSize.toNat) := fun hfits => h ⟨hroom, hfits⟩
    rw [not_or] at hstring
    cases token with
    | prop name value =>
        apply fdtProp_name_refused name value hshort.1 hstrs hroom
        have hfull := Nat.le_of_not_lt hstring.2
        rwa [Token.string, List.length_append] at hfull
    | beginNode name => exact absurd rfl hstring.1
    | nop => exact absurd rfl hstring.1
    | endNode => exact absurd rfl hstring.1
  · have hlong := Nat.lt_of_not_le hroom
    cases token with
    | beginNode name => exact fdtBeginNode_refused name hshort hbytes hlong
    | prop name value => exact fdtProp_refused name value hshort.2 hbytes hlong
    | nop => exact fdtToken_refused FDT_NOP hbytes hlong
    | endNode => exact fdtToken_refused FDT_END_NODE hbytes hlong

theorem emitAll_refused (tokens : List Token) (hshort : ∀ token ∈ tokens, Short token)
    (hbytes : bytes.length ≤ bufferSize.toNat) (hstrs : strs.length ≤ stringBufferSize.toNat)
    (h : ¬(bytes.length + (tokens.map Token.size).sum ≤ bufferSize.toNat ∧
      (stringBytes tokens = [] ∨
        strs.length + (stringBytes tokens).length < stringBufferSize.toNat))) :
    emitAll tokens (written bufferSize stringBufferSize bytes strs) = .error .exit := by
  induction tokens generalizing bytes strs with
  | nil => exact absurd ⟨hbytes, .inl rfl⟩ h
  | cons token rest ih =>
      rw [emitAll]
      by_cases hroom : HasRoom bufferSize stringBufferSize bytes strs token
      · obtain ⟨hfits, hstring⟩ := hroom
        have hnames : strs.length + token.string.length ≤ stringBufferSize.toNat := by
          rcases hstring with hnil | hlt
          · rw [hnil, List.length_nil]
            omega
          · omega
        rw [emit_written token (by rwa [length_bytes]) hstring, bind_ok]
        apply ih fun token hmem => hshort token (List.mem_cons_of_mem _ hmem)
        · rw [List.length_append, length_bytes]
          exact hfits
        · rw [List.length_append]
          exact hnames
        · rw [List.length_append, List.length_append, length_bytes]
          rintro ⟨hsum, hrest⟩
          apply h
          rw [List.map_cons, List.sum_cons, stringBytes_cons, List.append_eq_nil_iff,
            List.length_append]
          refine ⟨by omega, ?_⟩
          rcases hrest with hnil | hlt
          · rw [hnil, List.length_nil, Nat.add_zero]
            exact hstring.imp (fun hempty => ⟨hempty, rfl⟩) id
          · exact .inr (by omega)
      · have hfirst := emit_refused (hshort token List.mem_cons_self) hbytes hstrs hroom
        rw [hfirst]
        rfl

end Emit

section Build

variable {bufferSize stringBufferSize : Word} {body strs : List Byte}

/-- The end token, or the strings behind it, without room. -/
theorem fdtEnd_refused (hbody : 56 + body.length ≤ bufferSize.toNat) (hstrs : strs.length < 2 ^ 32)
    (h : bufferSize.toNat < 56 + body.length + 4 + strs.length) :
    fdtEnd (written bufferSize stringBufferSize (blobBytes (header 0 0 0 0) body) strs) =
      .error .exit := by
  have hlength := length_blobBytes 0 0 0 0 body
  by_cases hend : 56 + body.length + 4 ≤ bufferSize.toNat
  · have htoken : fdtToken FDT_END
        (written bufferSize stringBufferSize (blobBytes (header 0 0 0 0) body) strs) =
          .ok (written bufferSize stringBufferSize
            (blobBytes (header 0 0 0 0) (body ++ tokenBytes FDT_END)) strs) := by
      rw [fdtToken_written FDT_END (by omega)]
      simp only [blobBytes, List.append_assoc]
    have hblob : (blobBytes (header 0 0 0 0) (body ++ tokenBytes FDT_END)).length =
        56 + body.length + 4 := by
      rw [length_blobBytes, List.length_append, length_tokenBytes, Nat.add_assoc]
    have hstrsNat : (BitVec.ofNat 32 strs.length).toNat = strs.length := toNat_ofNat_of_lt hstrs
    have hassert : fdtAssert (BitVec.ofNat 32 strs.length ≤ bufferSize -
        BitVec.ofNat 32 (blobBytes (header 0 0 0 0) (body ++ tokenBytes FDT_END)).length) =
          .error .exit := by
      apply assert_refused
      · rw [hblob]
        exact hend
      · rw [hblob, hstrsNat]
        exact h
    have hstore : ∀ (words : List Word) (i : Nat) (v : Word), i < words.length →
        hostStore32 (filled bufferSize (blobBytes words (body ++ tokenBytes FDT_END))) (4 * i)
            (bigEndian32 v) =
          .ok (filled bufferSize (blobBytes (words.set i v) (body ++ tokenBytes FDT_END))) :=
      fun words i v hi => hostStore32_header hi v
    have hload : ∀ (words : List Word) (i : Nat) (hi : i < words.length),
        hostLoad32 (filled bufferSize (blobBytes words (body ++ tokenBytes FDT_END))) (4 * i) =
          .ok (bigEndian32 words[i]) :=
      fun words i hi => hostLoad32_header hi
    unfold fdtEnd
    rw [htoken, bind_ok]
    unfold written
    simp only
    rw [FdtHeader.offDtStrings, hstore _ 3 _ (by simp [header]), bind_ok,
      FdtHeader.sizeDtStrings, hstore _ 8 _ (by simp [header]), bind_ok,
      FdtHeader.offDtStruct, hload _ 2 (by simp [header]), bind_ok,
      FdtHeader.sizeDtStruct, hstore _ 9 _ (by simp [header]), bind_ok,
      FdtHeader.totalsize, hstore _ 1 _ (by simp [header]), bind_ok]
    simp only [hassert]
    rfl
  · have htoken : fdtToken FDT_END
        (written bufferSize stringBufferSize (blobBytes (header 0 0 0 0) body) strs) =
          .error .exit :=
      fdtToken_refused FDT_END (by omega) (by omega)
    unfold fdtEnd
    rw [htoken]
    rfl

/-- The tree, its end token and its names fit the buffers. -/
def Roomy (forest : Forest) (bufferSize stringBufferSize : Word) : Prop :=
  56 + forest.structSize + 4 + forest.nameBytes ≤ bufferSize.toNat ∧
    (forest.nameBytes = 0 ∨ forest.nameBytes < stringBufferSize.toNat)

instance (forest : Forest) (bufferSize stringBufferSize : Word) :
    Decidable (Roomy forest bufferSize stringBufferSize) :=
  inferInstanceAs (Decidable (_ ∧ _))

/-- What the builder leaves of a tree. -/
def builtFrom (bufferSize stringBufferSize : Word) (forest : Forest) : FdtBuildBlob :=
  written bufferSize stringBufferSize
    (finalBytes (structBytes 0 forest.tokens) (stringBytes forest.tokens))
    (stringBytes forest.tokens)

variable {forest : Forest}

theorem build_refused (hbuffer : 56 ≤ bufferSize.toInt) (hstring : 0 ≤ stringBufferSize.toInt)
    (hshort : ∀ token ∈ forest.tokens, Short token)
    (h : ¬Roomy forest bufferSize stringBufferSize) :
    forest.build bufferSize stringBufferSize = .error .exit := by
  obtain ⟨hsize, hmax⟩ := toNat_of_nonneg (x := bufferSize) (by omega)
  obtain ⟨-, hstringMax⟩ := toNat_of_nonneg (x := stringBufferSize) hstring
  have hlength : (blobBytes (header 0 0 0 0) []).length = 56 := length_blobBytes 0 0 0 0 []
  rw [Forest.build, fdtBuildInit_written hbuffer hstring, bind_ok, emit_eq_emitAll]
  unfold Roomy at h
  rw [structSize_eq, nameBytes_eq] at h
  by_cases hemit : (blobBytes (header 0 0 0 0) []).length + (forest.tokens.map Token.size).sum ≤
      bufferSize.toNat ∧ (stringBytes forest.tokens = [] ∨
        ([] : List Byte).length + (stringBytes forest.tokens).length < stringBufferSize.toNat)
  · -- the nodes fit, but not what follows them
    obtain ⟨hstruct, hnames⟩ := hemit
    have hbody : blobBytes (header 0 0 0 0) [] ++ structBytes 0 forest.tokens =
        blobBytes (header 0 0 0 0) (structBytes 0 forest.tokens) := by
      simp only [blobBytes, List.append_nil, List.append_assoc]
    have hsum := length_structBytes 0 forest.tokens
    rw [emitAll_written forest.tokens (by rwa [List.length_nil, hsum]) hnames, bind_ok,
      List.length_nil, hbody, List.nil_append]
    rw [List.length_nil, Nat.zero_add, ← List.length_eq_zero_iff] at hnames
    apply fdtEnd_refused
    · omega
    · omega
    · rw [hsum]
      by_contra hfits
      exact h ⟨by omega, hnames⟩
  · rw [emitAll_refused forest.tokens hshort (by omega) (Nat.zero_le _) hemit]
    rfl

theorem build_roomy (hbuffer : 56 ≤ bufferSize.toInt) (hstring : 0 ≤ stringBufferSize.toInt)
    (h : Roomy forest bufferSize stringBufferSize) :
    forest.build bufferSize stringBufferSize = .ok (builtFrom bufferSize stringBufferSize forest) := by
  obtain ⟨hsize, -⟩ := toNat_of_nonneg (x := bufferSize) (by omega)
  obtain ⟨hstringSize, -⟩ := toNat_of_nonneg (x := stringBufferSize) hstring
  obtain ⟨hfits, hnames⟩ := h
  refine build_written ⟨by omega, ?_⟩ hnames
  rcases hnames with hzero | hlt
  · omega
  · omega

/--
The builder returns a tree if and only if the tree fits its two buffers; every
other tree ends in an assertion, never in an access outside a buffer.
-/
theorem build_cases (hbuffer : 56 ≤ bufferSize.toInt) (hstring : 0 ≤ stringBufferSize.toInt)
    (hshort : ∀ token ∈ forest.tokens, Short token) :
    forest.build bufferSize stringBufferSize =
      if Roomy forest bufferSize stringBufferSize then
        .ok (builtFrom bufferSize stringBufferSize forest)
      else .error .exit := by
  split
  · rename_i hroomy
    exact build_roomy hbuffer hstring hroomy
  · rename_i hroomy
    exact build_refused hbuffer hstring hshort hroomy

/-- A node with the empty properties `a` and `bc`. -/
def namedForest : Forest :=
  .node (literal "")
    (.prop (literal "a") [] (.prop (literal "bc") [] .nil)) .nil

/-- Their names take five bytes of six, overflow a buffer of five, or the tree lacks its end. -/
theorem build_cases_short :
    namedForest.build 256 6 = .ok (builtFrom 256 6 namedForest) ∧
      namedForest.build 256 5 = .error .exit ∧ namedForest.build 64 6 = .error .exit := by
  have hshort : ∀ token ∈ namedForest.tokens, Short token := by
    simp [namedForest, Forest.tokens, Short, CString.strlen, literal, ascii]
  refine ⟨?_, ?_, ?_⟩
  · rw [build_cases (by decide) (by decide) hshort, if_pos (by decide)]
  · rw [build_cases (by decide) (by decide) hshort, if_neg (by decide)]
  · rw [build_cases (by decide) (by decide) hshort, if_neg (by decide)]

end Build

end Zelda.Proofs.TreeRefusal
