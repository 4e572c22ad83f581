import Zelda.Vmm.TranslationCache
/-!
# Traps

Trap entry to machine and supervisor level, and the exception wrapper that
picks the level.  Raising a trap does not return to its caller: it ends the
computation with `Abort.trap` in the state the vmm is re-entered with.
-/

namespace Zelda.Vmm

def EXCEPTION_ILLEEGAL_INSTRUCTION : Nat := 0x2
def EXCEPTION_LOAD_ADDRESS_MISALIGN : Nat := 0x4
def EXCEPTION_ECALL_FROM_UMODE : Nat := 0x8
def EXCEPTION_ECALL_FROM_SMODE : Nat := 0x9
def EXCEPTION_ECALL_FROM_MMODE : Nat := 0xb
def EXCEPTION_INSTRUCTION_PAGE_FAULT : Nat := 0xc
def EXCEPTION_LOAD_PAGE_FAULT : Nat := 0xd
def EXCEPTION_STORE_PAGE_FAULT : Nat := 0xf

namespace Hart

/-- The pc a trap vector register sends a cause to. -/
def trapVector (tvec cause : Word) : Word :=
  if tvec &&& 0x1 = 0 ∨ cause &&& 0x80000000 = 0 then tvec &&& ~~~3#32
  else (tvec &&& ~~~3#32) + (cause &&& 0x7fffffff) * 4

/-- `setup_mmode_trap`. -/
def setupMmodeTrap (h : Hart) (cause tval : Word) : Hart :=
  let h := h.setCsrBlob CSR_ADDRESS_MCAUSE cause
  let h := h.setCsrBlob CSR_ADDRESS_MTVAL tval
  let h := h.setCsrBlob CSR_ADDRESS_MEPC h.pc
  let h := { h with
    status := { h.status with
      mpp := h.privilegeLevel
      mpie := h.status.mie
      mie := false }
    privilegeLevel := PRIVILEGE_LEVEL_MACHINE }
  { h with pc := trapVector (h.csrBlob CSR_ADDRESS_MTVEC) cause }

/-- `setup_smode_trap`; `spp` keeps one bit of the level trapped from. -/
def setupSmodeTrap (h : Hart) (cause tval : Word) : Hart :=
  let h := h.setCsrBlob CSR_ADDRESS_SCAUSE cause
  let h := h.setCsrBlob CSR_ADDRESS_STVAL tval
  let h := h.setCsrBlob CSR_ADDRESS_SEPC h.pc
  let h := { h with
    status := { h.status with
      spp := h.privilegeLevel.setWidth 1
      spie := h.status.sie
      sie := false }
    privilegeLevel := PRIVILEGE_LEVEL_SUPERVISOR }
  { h with pc := trapVector (h.csrBlob CSR_ADDRESS_STVEC) cause }

/-- `flush_translation_cache_on_address_space_change`. -/
def flushTranslationCacheOnAddressSpaceChange (h : Hart) (previousTag : Word) : Hart :=
  if h.addressSpaceTag ≠ previousTag then h.flushTranslationCache else h

/-- The hart `raise_trap_raw` leaves for the vmm entry point. -/
def takeTrap (h : Hart) (targetPrivilegeLevel : BitVec 2) (cause tval : Word) : Hart :=
  let previousTag := h.addressSpaceTag
  let h :=
    if targetPrivilegeLevel = PRIVILEGE_LEVEL_MACHINE then h.setupMmodeTrap cause tval
    else h.setupSmodeTrap cause tval
  h.flushTranslationCacheOnAddressSpaceChange previousTag

/-- `exception_target_privilege_level`. -/
def exceptionTargetPrivilegeLevel (h : Hart) (exceptionNumber : Nat) : BitVec 2 :=
  if h.privilegeLevel ≠ PRIVILEGE_LEVEL_MACHINE ∧
      h.csrBlob CSR_ADDRESS_MEDELEG &&& (1#32 <<< exceptionNumber) ≠ 0 then
    PRIVILEGE_LEVEL_SUPERVISOR
  else
    PRIVILEGE_LEVEL_MACHINE

end Hart

/-- `raise_trap_raw`. -/
def raiseTrapRaw {α : Type} (targetPrivilegeLevel : BitVec 2) (cause tval : Word) : VmM α := do
  assert (targetPrivilegeLevel == PRIVILEGE_LEVEL_MACHINE ||
    targetPrivilegeLevel == PRIVILEGE_LEVEL_SUPERVISOR)
  modifyHart fun h => h.takeTrap targetPrivilegeLevel cause tval
  throw .trap

/-- `raise_exception_internal`. -/
def raiseExceptionWithTvalue {α : Type} (exceptionCause : Nat) (trapValue : Word) : VmM α := do
  let vm ← get
  let targetPl := vm.hart.exceptionTargetPrivilegeLevel exceptionCause
  assert (exceptionCause < 16)
  raiseTrapRaw targetPl (BitVec.ofNat 32 exceptionCause) trapValue

/-- `raise_exception`. -/
def raiseException {α : Type} (exceptionCause : Nat) : VmM α :=
  raiseExceptionWithTvalue exceptionCause 0

end Zelda.Vmm
