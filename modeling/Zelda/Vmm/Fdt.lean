import Zelda.Lib.ByteBuffer
import Zelda.Vmm.CString
import Zelda.Vmm.Vm
/-!
# The flattened device tree

The builder that writes the blob handed to the guest, and the scanner that
walks its tokens.  Both work on host memory: an allocation is a list of bytes
and an access outside it is a host fault.
-/

namespace Zelda.Vmm

open Zelda.Lib.ByteBuffer

/-! ## Words and alignment -/

/-- `LITTLE_ENDIAN32`: swap the bytes of a word. -/
def littleEndian32 (v : Word) : Word :=
  ((v &&& 0xff) <<< 24) ||| ((v &&& 0xff00) <<< 8) ||| ((v &&& 0xff0000) >>> 8) |||
    ((v &&& 0xff000000) >>> 24)

/-- `BIG_ENDIAN32`, which is the same macro. -/
def bigEndian32 (v : Word) : Word :=
  littleEndian32 v

/-- `ALIGNINT`, with `ALIGN32` and `ALIGNADDR` as its instances. -/
def alignInt {w : Nat} (var align : BitVec w) : BitVec w :=
  if var &&& (align - 1) ≠ 0 then (var &&& ~~~(align - 1)) + align else var

/-- The bytes of a word as the host stores them. -/
def wordBytes (value : Word) : List Byte :=
  [value.extractLsb' 0 8, value.extractLsb' 8 8, value.extractLsb' 16 8, value.extractLsb' 24 8]

/-- `malloc` of an `int` and `memset` to zero; a negative size is too large for any allocation. -/
def mallocZeroed (size : Word) : Except Abort (List Byte) :=
  if size.toInt < 0 then .error .exit else .ok (List.replicate size.toNat 0)

/-- `memcpy` to `offset` bytes behind the start of an allocation. -/
def memcpyTo (buffer : List Byte) (offset : Nat) (bytes : List Byte) : Except Abort (List Byte) :=
  match writeAt buffer offset bytes with
  | some buffer => .ok buffer
  | none => .error .hostFault

def hostStore32 (buffer : List Byte) (offset : Nat) (value : Word) : Except Abort (List Byte) :=
  memcpyTo buffer offset (wordBytes value)

def hostLoad32 (buffer : List Byte) (offset : Nat) : Except Abort Word :=
  match readAt buffer offset 4 with
  | some [b0, b1, b2, b3] => .ok (b3 ++ b2 ++ b1 ++ b0)
  | _ => .error .hostFault

/-- The C string at `offset`. -/
def loadString (buffer : List Byte) (offset : Nat) : Except Abort (List Byte) :=
  match stringAt 0 buffer offset with
  | some bytes => .ok bytes
  | none => .error .hostFault

/-- `ASSERT`. -/
def fdtAssert (condition : Bool) : Except Abort Unit :=
  if condition then .ok () else .error .exit

/-! ## The format -/

def FDT_MAGIC : Word := 0xd00dfeed
def FDT_BEGIN_NODE : Word := 1
def FDT_END_NODE : Word := 2
def FDT_PROP : Word := 3
def FDT_NOP : Word := 4
def FDT_END : Word := 9

/-! The offsets of the fields of `struct fdt_header`. -/

namespace FdtHeader

def magic : Nat := 0
def totalsize : Nat := 4
def offDtStruct : Nat := 8
def offDtStrings : Nat := 12
def offMemRsvmap : Nat := 16
def version : Nat := 20
def lastCompVersion : Nat := 24
def sizeDtStrings : Nat := 32
def sizeDtStruct : Nat := 36

/-- `sizeof(struct fdt_header)`. -/
def size : Nat := 40

end FdtHeader

/-- `sizeof(struct fdt_property)`: `len`, then `nameoff`. -/
def FDT_PROPERTY_SIZE : Nat := 8

/-! ## The builder -/

/-- `struct fdt_build_blob`, without what the node builders keep for themselves. -/
structure FdtBuildBlob where
  buffer : List Byte
  bufferSize : Word
  bufferIptr : Word
  stringBuffer : List Byte
  stringBufferSize : Word
  stringBufferIptr : Word

/-- `fdt_build_init`. -/
def fdtBuildInit (bufferSize stringBufferSize : Word) : Except Abort FdtBuildBlob := do
  let buffer ← mallocZeroed bufferSize
  let stringBuffer ← mallocZeroed stringBufferSize
  let buffer ← hostStore32 buffer FdtHeader.magic (bigEndian32 FDT_MAGIC)
  let buffer ← hostStore32 buffer FdtHeader.version (bigEndian32 17)
  let buffer ← hostStore32 buffer FdtHeader.lastCompVersion (bigEndian32 2)
  let bufferIptr := alignInt (BitVec.ofNat 32 FdtHeader.size) 4
  -- an empty memory reservation block right after the header
  let buffer ← hostStore32 buffer FdtHeader.offMemRsvmap (bigEndian32 bufferIptr)
  let bufferIptr := alignInt (bufferIptr + 16) 4
  let buffer ← hostStore32 buffer FdtHeader.offDtStruct (bigEndian32 bufferIptr)
  pure
    { buffer, bufferSize, bufferIptr, stringBuffer, stringBufferSize, stringBufferIptr := 0 }

/-- `fdt_begin_node`: the terminator of the name is left from the zero fill. -/
def fdtBeginNode (blob : FdtBuildBlob) (nodeName : CString) : Except Abort FdtBuildBlob := do
  let roomAvailable := blob.bufferSize - blob.bufferIptr
  let roomNeeded := alignInt (BitVec.ofNat 32 (4 + nodeName.strlen + 1)) 4
  fdtAssert (roomNeeded ≤ roomAvailable)
  let buffer ← hostStore32 blob.buffer blob.bufferIptr.toNat (bigEndian32 FDT_BEGIN_NODE)
  let buffer ← memcpyTo buffer (blob.bufferIptr.toNat + 4) nodeName.bytes
  pure { blob with buffer, bufferIptr := blob.bufferIptr + roomNeeded }

/-- `fdt_prop`: `propValue` is the memory its pointer leads to. -/
def fdtProp (blob : FdtBuildBlob) (propName : CString) (propLen : Word) (propValue : List Byte) :
    Except Abort FdtBuildBlob := do
  let roomAvailable := blob.bufferSize - blob.bufferIptr
  let roomNeeded := alignInt (BitVec.ofNat 32 (4 + FDT_PROPERTY_SIZE + propLen.toNat)) 4
  fdtAssert (roomNeeded ≤ roomAvailable)
  let start := blob.bufferIptr.toNat
  let buffer ← hostStore32 blob.buffer start (bigEndian32 FDT_PROP)
  let buffer ← hostStore32 buffer (start + 4) (bigEndian32 propLen)
  let buffer ← hostStore32 buffer (start + 8) (bigEndian32 blob.stringBufferIptr)
  match readAt propValue 0 propLen.toNat with
  | none => .error .hostFault
  | some value => do
      let buffer ← memcpyTo buffer (start + 4 + FDT_PROPERTY_SIZE) value
      let bufferIptr := blob.bufferIptr + roomNeeded
      let nameSize := BitVec.ofNat 32 (propName.strlen + 1)
      fdtAssert (nameSize < blob.stringBufferSize - blob.stringBufferIptr)
      let stringBuffer ← memcpyTo blob.stringBuffer blob.stringBufferIptr.toNat
        ((propName.bytes ++ [0]).take nameSize.toNat)
      pure
        { blob with
          buffer, bufferIptr, stringBuffer
          stringBufferIptr := blob.stringBufferIptr + nameSize }

/-- A token without operands, as `fdt_end_node`, `fdt_nop` and `fdt_end` write it. -/
def fdtToken (token : Word) (blob : FdtBuildBlob) : Except Abort FdtBuildBlob := do
  let roomAvailable := blob.bufferSize - blob.bufferIptr
  let roomNeeded := 4
  fdtAssert (roomNeeded ≤ roomAvailable)
  let buffer ← hostStore32 blob.buffer blob.bufferIptr.toNat (bigEndian32 token)
  pure { blob with buffer, bufferIptr := blob.bufferIptr + roomNeeded }

/-- `fdt_end_node`. -/
def fdtEndNode (blob : FdtBuildBlob) : Except Abort FdtBuildBlob :=
  fdtToken FDT_END_NODE blob

/-- `fdt_nop`. -/
def fdtNop (blob : FdtBuildBlob) : Except Abort FdtBuildBlob :=
  fdtToken FDT_NOP blob

/-- `fdt_end`: fill in the header and move the strings behind the structure. -/
def fdtEnd (blob : FdtBuildBlob) : Except Abort FdtBuildBlob := do
  let blob ← fdtToken FDT_END blob
  let buffer ← hostStore32 blob.buffer FdtHeader.offDtStrings (bigEndian32 blob.bufferIptr)
  let buffer ← hostStore32 buffer FdtHeader.sizeDtStrings (bigEndian32 blob.stringBufferIptr)
  let offDtStruct ← hostLoad32 buffer FdtHeader.offDtStruct
  let sizeStruct := blob.bufferIptr - littleEndian32 offDtStruct
  let buffer ← hostStore32 buffer FdtHeader.sizeDtStruct (bigEndian32 sizeStruct)
  let sizeTotal := blob.bufferIptr + blob.stringBufferIptr
  let buffer ← hostStore32 buffer FdtHeader.totalsize (bigEndian32 sizeTotal)
  let roomAvailable := blob.bufferSize - blob.bufferIptr
  let roomNeeded := blob.stringBufferIptr
  fdtAssert (roomNeeded ≤ roomAvailable)
  match readAt blob.stringBuffer 0 blob.stringBufferIptr.toNat with
  | none => .error .hostFault
  | some strings => do
      let buffer ← memcpyTo buffer blob.bufferIptr.toNat strings
      pure { blob with buffer, bufferIptr := blob.bufferIptr + blob.stringBufferIptr }

/-! ## The scanner -/

/-- What the scanner has in its variables when it has read a token. -/
inductive FdtVisit
  | beginNode (nodeName : List Byte)
  | prop (nodePropName : List Byte) (nodePropLength : Word) (nodePropValue : List Byte)
  | nop
  | endNode
  | fdtEnd
  deriving DecidableEq, Repr

/-- The state of the loop, with the tokens visited so far. -/
structure FdtScan where
  ptr : DWord
  toStop : Bool
  visits : List FdtVisit
  deriving DecidableEq, Repr

/-- One round of `scan_fdt_tokens`, for a blob that stands at the host address `dtb`. -/
def scanFdtToken (dtb : DWord) (blob : List Byte) (s : FdtScan) : Except Abort FdtScan := do
  let token ← hostLoad32 blob (s.ptr - dtb).toNat
  let token := littleEndian32 token
  let ptr := s.ptr + 4
  if token = FDT_BEGIN_NODE then
    let nodeName ← loadString blob (ptr - dtb).toNat
    let ptr := ptr + BitVec.ofNat 64 (nodeName.length + 1)
    pure { s with ptr := alignInt ptr 4, visits := s.visits ++ [.beginNode nodeName] }
  else if token = FDT_PROP then
    let len ← hostLoad32 blob (ptr - dtb).toNat
    let nodePropLength := littleEndian32 len
    let offDtStrings ← hostLoad32 blob FdtHeader.offDtStrings
    let nameoff ← hostLoad32 blob ((ptr - dtb).toNat + 4)
    let nodePropName ← loadString blob
      ((littleEndian32 offDtStrings).toNat + (littleEndian32 nameoff).toNat)
    let ptr := ptr + BitVec.ofNat 64 FDT_PROPERTY_SIZE
    let nodePropValue := (blob.drop (ptr - dtb).toNat).take nodePropLength.toNat
    -- `node_prop_length` is an `int`
    let ptr := ptr + nodePropLength.signExtend 64
    pure
      { s with
        ptr := alignInt ptr 4
        visits := s.visits ++ [.prop nodePropName nodePropLength nodePropValue] }
  else if token = FDT_NOP then
    pure { s with ptr, visits := s.visits ++ [.nop] }
  else if token = FDT_END_NODE then
    pure { s with ptr, visits := s.visits ++ [.endNode] }
  else if token = FDT_END then
    pure { ptr, toStop := true, visits := s.visits ++ [.fdtEnd] }
  else
    .error .exit

/-- The loop of `scan_fdt_tokens`, for at most so many rounds. -/
def scanLoop (dtb : DWord) (blob : List Byte) : Nat → FdtScan → Except Abort FdtScan
  | 0, s => pure s
  | rounds + 1, s =>
      if s.toStop then pure s
      else do
        let s ← scanFdtToken dtb blob s
        scanLoop dtb blob rounds s

/-- `scan_fdt_tokens`. -/
def scanFdtTokens (rounds : Nat) (dtb : DWord) (blob : List Byte) : Except Abort FdtScan := do
  let offDtStruct ← hostLoad32 blob FdtHeader.offDtStruct
  scanLoop dtb blob rounds
    { ptr := dtb + (littleEndian32 offDtStruct).setWidth 64, toStop := false, visits := [] }

end Zelda.Vmm
