import Zelda.Vmm.Decoding
import Zelda.Vmm.Mmu
/-!
# Control and status registers

Every registered CSR with its mask and callbacks, and the instruction callback
that all six CSR instruction forms share.
-/

namespace Zelda.Vmm

def WPRI_MASK_ALL : Word := 0xffffffff

/-- `struct csr_entry` as registered: a `NULL` callback is `none`. -/
structure CsrEntry where
  wpriMask : Word
  write : Option (Word → Vm → Vm)
  read : Option (Vm → Word × Vm)

/-- Bit `n` of a blob, in place. -/
def bitInPlace (blob : Word) (n : Nat) : Word :=
  ((blob >>> n) &&& 1) <<< n

/-- Replace bit `n` of a blob by bit `n` of `value`. -/
def copyBit (blob value : Word) (n : Nat) : Word :=
  (blob &&& ~~~(1#32 <<< n)) ||| bitInPlace value n

/-! ## Callback families -/

/-- `csr->csr_blob = value`. -/
def blobWrite (address : CsrAddress) (value : Word) (vm : Vm) : Vm :=
  { vm with hart := vm.hart.setCsrBlob address value }

/-- `return csr->csr_blob`. -/
def blobRead (address : CsrAddress) (vm : Vm) : Word × Vm :=
  (vm.hart.csrBlob address, vm)

/-- A register whose callbacks only move `csr_blob`. -/
def blobCsrEntry (address : CsrAddress) (wpriMask : Word) : CsrEntry where
  wpriMask := wpriMask
  write := some (blobWrite address)
  read := some (blobRead address)

/-- A `csr_blob` register without a write callback. -/
def readOnlyBlobCsrEntry (address : CsrAddress) : CsrEntry where
  wpriMask := WPRI_MASK_ALL
  write := none
  read := some (blobRead address)

/-- A write callback with an empty body. -/
def ignoreWrite (_ : Word) (vm : Vm) : Vm :=
  vm

/-! ## Machine level -/

def mscratchCsrEntry : CsrEntry := blobCsrEntry CSR_ADDRESS_MSCRATCH WPRI_MASK_ALL

def misaCsrEntry : CsrEntry where
  wpriMask := WPRI_MASK_ALL
  write := some ignoreWrite
  read := some (blobRead 0x301)

def mvendoridCsrEntry : CsrEntry := readOnlyBlobCsrEntry 0xf11

def mhartidCsrEntry : CsrEntry where
  wpriMask := WPRI_MASK_ALL
  write := none
  read := some fun vm => (BitVec.ofNat 32 vm.hart.hartId, vm)

def mtvecCsrEntry : CsrEntry := blobCsrEntry CSR_ADDRESS_MTVEC 0xfffffffd

def mcounterenCsrEntry : CsrEntry := blobCsrEntry 0x306 WPRI_MASK_ALL

def mieCsrEntry : CsrEntry where
  wpriMask := 0x00000aaa
  write := some fun value vm => { vm with hart := { vm.hart with ienable := value } }
  read := some fun vm => (vm.hart.ienable, vm)

/-- `csr_mip_write` keeps the three machine bits, which only devices drive. -/
def mipCsrEntry : CsrEntry where
  wpriMask := 0x00000aaa
  write := some fun value vm =>
    let mipMask := vm.hart.ipending &&& 0x888
    { vm with hart := { vm.hart with ipending := (value &&& ~~~0x888#32) ||| mipMask } }
  read := some fun vm => (vm.hart.ipending, vm)

def medelegCsrEntry : CsrEntry := blobCsrEntry CSR_ADDRESS_MEDELEG 0xfffff7ff

def midelegCsrEntry : CsrEntry where
  wpriMask := 0x00000222
  write := some fun value vm => { vm with hart := { vm.hart with idelegation := value } }
  read := some fun vm => (vm.hart.idelegation, vm)

/-- A status flag at its position in the status word. -/
def statusBit (flag : Bool) (n : Nat) : Word :=
  (BitVec.ofBool flag).setWidth 32 <<< n

def mstatusCsrEntry : CsrEntry where
  wpriMask := 0x000019aa
  write := some fun value vm =>
    { vm with hart := { vm.hart with
      status :=
        { uie := value.getLsbD 0
          sie := value.getLsbD 1
          mie := value.getLsbD 3
          upie := value.getLsbD 4
          spie := value.getLsbD 5
          mpie := value.getLsbD 7
          spp := (value >>> 8).setWidth 1
          mpp := (value >>> 11).setWidth 2 } } }
  read := some fun vm =>
    let status := vm.hart.status
    (statusBit status.uie 0 ||| statusBit status.sie 1 ||| statusBit status.mie 3 |||
      statusBit status.upie 4 ||| statusBit status.spie 5 ||| statusBit status.mpie 7 |||
      (status.spp.setWidth 32 <<< 8) ||| (status.mpp.setWidth 32 <<< 11), vm)

def mepcCsrEntry : CsrEntry := blobCsrEntry CSR_ADDRESS_MEPC WPRI_MASK_ALL

def mcauseCsrEntry : CsrEntry := blobCsrEntry CSR_ADDRESS_MCAUSE WPRI_MASK_ALL

def mtvalCsrEntry : CsrEntry := blobCsrEntry CSR_ADDRESS_MTVAL WPRI_MASK_ALL

/-- `pmpaddr0` to `pmpaddr15`. -/
def pmpaddrCsrEntry (idx : Fin 16) : CsrEntry :=
  blobCsrEntry (0x3b0 + BitVec.ofNat 12 idx) WPRI_MASK_ALL

/-- `pmpcfg0` to `pmpcfg3`. -/
def pmpcfgCsrEntry (idx : Fin 4) : CsrEntry :=
  blobCsrEntry (0x3a0 + BitVec.ofNat 12 idx) WPRI_MASK_ALL

/-! ## Supervisor level -/

def scounterenCsrEntry : CsrEntry := blobCsrEntry 0x106 WPRI_MASK_ALL

/-- `csr_satp_write` also drops both TLBs and the translation cache. -/
def satpCsrEntry : CsrEntry where
  wpriMask := WPRI_MASK_ALL
  write := some fun value vm =>
    let hart := vm.hart.setCsrBlob CSR_ADDRESS_SATP value
    let hart := { hart with itlb := hart.itlb.invalidate, dtlb := hart.dtlb.invalidate }
    { vm with hart := hart.flushTranslationCache }
  read := some (blobRead CSR_ADDRESS_SATP)

def sieCsrEntry : CsrEntry where
  wpriMask := 0x00000222
  write := some fun value vm =>
    let ienable := copyBit vm.hart.ienable value 1
    let ienable := copyBit ienable value 5
    { vm with hart := { vm.hart with ienable := copyBit ienable value 9 } }
  read := some fun vm =>
    let ienable := vm.hart.ienable
    (bitInPlace ienable 0 ||| bitInPlace ienable 1 ||| bitInPlace ienable 4 |||
      bitInPlace ienable 5 ||| bitInPlace ienable 8 ||| bitInPlace ienable 9, vm)

/-- Only `ssip` is writable through `sip`. -/
def sipCsrEntry : CsrEntry where
  wpriMask := 0x00000222
  write := some fun value vm =>
    { vm with hart := { vm.hart with ipending := copyBit vm.hart.ipending value 1 } }
  read := some fun vm =>
    let ipending := vm.hart.ipending
    (bitInPlace ipending 1 ||| bitInPlace ipending 5 ||| bitInPlace ipending 9, vm)

def sstatusCsrEntry : CsrEntry where
  wpriMask := 0x00000133
  write := some fun value vm =>
    { vm with hart := { vm.hart with
      status := { vm.hart.status with
        uie := value.getLsbD 0
        sie := value.getLsbD 1
        upie := value.getLsbD 4
        spie := value.getLsbD 5
        spp := (value >>> 8).setWidth 1 } } }
  read := some fun vm =>
    let status := vm.hart.status
    (statusBit status.uie 0 ||| statusBit status.sie 1 ||| statusBit status.upie 4 |||
      statusBit status.spie 5 ||| (status.spp.setWidth 32 <<< 8), vm)

def stvecCsrEntry : CsrEntry := blobCsrEntry CSR_ADDRESS_STVEC WPRI_MASK_ALL

def sscratchCsrEntry : CsrEntry := blobCsrEntry CSR_ADDRESS_SSCRATCH WPRI_MASK_ALL

def sepcCsrEntry : CsrEntry := blobCsrEntry CSR_ADDRESS_SEPC WPRI_MASK_ALL

def stvalCsrEntry : CsrEntry := blobCsrEntry CSR_ADDRESS_STVAL WPRI_MASK_ALL

def scauseCsrEntry : CsrEntry := blobCsrEntry CSR_ADDRESS_SCAUSE WPRI_MASK_ALL

/-! ## Counters and identification -/

/-- `csr_time_read` latches the clock in `tsc`. -/
def timeCsrEntry : CsrEntry where
  wpriMask := WPRI_MASK_ALL
  write := some ignoreWrite
  read := some fun vm =>
    (vm.clint.mtime.setWidth 32, { vm with hart := { vm.hart with tsc := vm.clint.mtime } })

/-- `csr_cycle_read`. -/
def cycleRead (vm : Vm) : Word × Vm :=
  (vm.clint.mtime.setWidth 32, vm)

/-- `csr_cycleh_read`, the same function as `csr_timeh_read`. -/
def cyclehRead (vm : Vm) : Word × Vm :=
  ((vm.clint.mtime >>> 32).setWidth 32, vm)

def timehCsrEntry : CsrEntry where
  wpriMask := WPRI_MASK_ALL
  write := some ignoreWrite
  read := some cyclehRead

def counterCsrEntry (write : Option (Word → Vm → Vm)) (read : Vm → Word × Vm) : CsrEntry where
  wpriMask := WPRI_MASK_ALL
  write := write
  read := some read

/-! ## The register file -/

/-- Everything `csr_registery_init` installs. -/
def csrRegistery : List (CsrAddress × CsrEntry) :=
  [ (CSR_ADDRESS_MSCRATCH, mscratchCsrEntry),
    (0x301, misaCsrEntry),
    (0xf11, mvendoridCsrEntry),
    (0xf14, mhartidCsrEntry),
    (CSR_ADDRESS_MTVEC, mtvecCsrEntry),
    (0x306, mcounterenCsrEntry),
    (CSR_ADDRESS_MIE, mieCsrEntry),
    (CSR_ADDRESS_MIP, mipCsrEntry),
    (CSR_ADDRESS_MEDELEG, medelegCsrEntry),
    (CSR_ADDRESS_MIDELEG, midelegCsrEntry),
    (CSR_ADDRESS_MSTATUS, mstatusCsrEntry),
    (CSR_ADDRESS_MEPC, mepcCsrEntry),
    (CSR_ADDRESS_MCAUSE, mcauseCsrEntry),
    (CSR_ADDRESS_MTVAL, mtvalCsrEntry),
    (0x106, scounterenCsrEntry),
    (CSR_ADDRESS_SATP, satpCsrEntry),
    (CSR_ADDRESS_SIE, sieCsrEntry),
    (CSR_ADDRESS_SIP, sipCsrEntry),
    (CSR_ADDRESS_SSTATUS, sstatusCsrEntry),
    (CSR_ADDRESS_STVEC, stvecCsrEntry),
    (CSR_ADDRESS_SSCRATCH, sscratchCsrEntry),
    (CSR_ADDRESS_SEPC, sepcCsrEntry),
    (CSR_ADDRESS_STVAL, stvalCsrEntry),
    (CSR_ADDRESS_SCAUSE, scauseCsrEntry),
    (CSR_ADDRESS_TIME, timeCsrEntry),
    (CSR_ADDRESS_TIMEH, timehCsrEntry),
    (0xC00, counterCsrEntry none cycleRead),
    (0xC02, counterCsrEntry none cycleRead),
    (0xC80, counterCsrEntry none cyclehRead),
    (0xC82, counterCsrEntry none cyclehRead),
    (0xB00, counterCsrEntry (some ignoreWrite) cycleRead),
    (0xB02, counterCsrEntry (some ignoreWrite) cycleRead),
    (0xB80, counterCsrEntry (some ignoreWrite) cyclehRead),
    (0xB82, counterCsrEntry (some ignoreWrite) cyclehRead),
    (0xF12, readOnlyBlobCsrEntry 0xF12),
    (0xF13, readOnlyBlobCsrEntry 0xF13),
    (0x310, blobCsrEntry 0x310 WPRI_MASK_ALL),
    (0x30A, blobCsrEntry 0x30A WPRI_MASK_ALL),
    (0x31A, blobCsrEntry 0x31A WPRI_MASK_ALL),
    (0x10A, blobCsrEntry 0x10A WPRI_MASK_ALL) ] ++
  (List.finRange 16).map (fun idx : Fin 16 =>
    (0x3b0 + BitVec.ofNat 12 idx.val, pmpaddrCsrEntry idx)) ++
  (List.finRange 4).map (fun idx : Fin 4 =>
    (0x3a0 + BitVec.ofNat 12 idx.val, pmpcfgCsrEntry idx))

/-- The entry of `csrs_base` at an address; `none` when it is not valid. -/
def csrEntryAt (address : CsrAddress) : Option CsrEntry :=
  csrRegistery.lookup address

/-! ## The instruction callback -/

/-- `csr->read` under its mask, zero without a read callback. -/
def csrRead (csr : CsrEntry) : VmM Word := do
  match csr.read with
  | some read =>
      let (value, vm) := read (← get)
      set vm
      pure (value &&& csr.wpriMask)
  | none => pure (0 &&& csr.wpriMask)

/-- `csr->write`, if there is one. -/
def csrWrite (csr : CsrEntry) (value : Word) : VmM Unit :=
  match csr.write with
  | some write => modify (write value)
  | none => pure ()

/-- `riscv_generic_csr_callback`. -/
def riscvGenericCsrCallback (instruction : Word) : VmM Unit := do
  assert (opcodeOf instruction == RISCV_OPCODE_SUPERVISOR_LEVEL)
  let dec := instructionDecodingPerType instruction .I
  match csrEntryAt (dec.imm.setWidth 12) with
  | none => throw .exit
  | some csr =>
      let rs1Reg := (← get).hart.registers dec.rs1Index
      let rs1Imm : Word := dec.rs1Index.setWidth 32
      match dec.funct3 with
      | 0x1 | 0x5 =>
          if dec.rdIndex ≠ 0 then
            let valueToRead ← csrRead csr
            modifyHart fun h => h.setReg dec.rdIndex valueToRead
          csrWrite csr ((if dec.funct3 = 0x1 then rs1Reg else rs1Imm) &&& csr.wpriMask)
      | 0x2 | 0x6 =>
          let valueToRead ← csrRead csr
          modifyHart fun h => h.setReg dec.rdIndex valueToRead
          if dec.rs1Index ≠ 0 then
            let valueToSet := if dec.funct3 = 0x2 then rs1Reg else rs1Imm
            csrWrite csr ((valueToRead ||| valueToSet) &&& csr.wpriMask)
      | 0x3 | 0x7 =>
          let valueToRead ← csrRead csr
          modifyHart fun h => h.setReg dec.rdIndex valueToRead
          if dec.rs1Index ≠ 0 then
            let valueToClear := if dec.funct3 = 0x3 then rs1Reg else rs1Imm
            csrWrite csr (valueToRead &&& ~~~valueToClear &&& csr.wpriMask)
      | _ => throw .exit

end Zelda.Vmm
