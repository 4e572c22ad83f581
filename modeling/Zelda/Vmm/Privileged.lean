import Zelda.Vmm.Interrupt
import Zelda.Vmm.Mmu
/-!
# Callbacks of the privileged instructions
-/

namespace Zelda.Vmm

/-- `assert_hart_running_in_mmode`. -/
def assertHartRunningInMmode : VmM Unit := do
  let vm ← get
  if vm.hart.privilegeLevel ≠ PRIVILEGE_LEVEL_MACHINE then
    raiseException EXCEPTION_ILLEEGAL_INSTRUCTION
  else
    pure ()

/-- `assert_hart_running_in_smode`. -/
def assertHartRunningInSmode : VmM Unit := do
  let vm ← get
  if vm.hart.privilegeLevel ≠ PRIVILEGE_LEVEL_SUPERVISOR then
    raiseException EXCEPTION_ILLEEGAL_INSTRUCTION
  else
    pure ()

namespace Hart

/-- `adjust_mstatus_upon_mret`, past its assertion. -/
def adjustMstatusUponMret (h : Hart) : Hart :=
  { h with
    privilegeLevel := h.status.mpp
    status := { h.status with
      mpp := PRIVILEGE_LEVEL_USER
      mie := h.status.mpie
      mpie := true } }

/-- `adjust_mstatus_upon_sret`; a one-bit `spp` cannot fail the assertion. -/
def adjustMstatusUponSret (h : Hart) : Hart :=
  { h with
    privilegeLevel := h.status.spp.setWidth 2
    status := { h.status with
      spp := 0
      sie := h.status.spie
      spie := true } }

/-- `adjust_pc_upon_mret`. -/
def adjustPcUponMret (h : Hart) : Hart :=
  { h with pc := h.csrBlob CSR_ADDRESS_MEPC }

/-- `adjust_pc_upon_sret`. -/
def adjustPcUponSret (h : Hart) : Hart :=
  { h with pc := h.csrBlob CSR_ADDRESS_SEPC }

/-- What `mret_callback` does to the hart once the level has been checked. -/
def returnFromMmode (h : Hart) : Hart :=
  h.adjustMstatusUponMret.adjustPcUponMret.flushTranslationCacheOnAddressSpaceChange
    h.addressSpaceTag

/-- What `sret_callback` does to the hart once the level has been checked. -/
def returnFromSmode (h : Hart) : Hart :=
  h.adjustMstatusUponSret.adjustPcUponSret.flushTranslationCacheOnAddressSpaceChange
    h.addressSpaceTag

/-- `sfence_vma_callback`. -/
def sfenceVma (h : Hart) : Hart :=
  { h with itlb := h.itlb.invalidate, dtlb := h.dtlb.invalidate }.flushTranslationCache

end Hart

/-- `mret_callback`. -/
def mretCallback : VmM Unit := do
  assertHartRunningInMmode
  let vm ← get
  assert (vm.hart.status.mpp == PRIVILEGE_LEVEL_USER ||
    vm.hart.status.mpp == PRIVILEGE_LEVEL_SUPERVISOR ||
    vm.hart.status.mpp == PRIVILEGE_LEVEL_MACHINE)
  modifyHart Hart.returnFromMmode

/-- `sret_callback`. -/
def sretCallback : VmM Unit := do
  assertHartRunningInSmode
  modifyHart Hart.returnFromSmode

/-- `sfence_vma_callback`. -/
def sfenceVmaCallback : VmM Unit :=
  modifyHart Hart.sfenceVma

/-- `ecall_callback`. -/
def ecallCallback : VmM Unit := do
  let vm ← get
  if vm.hart.privilegeLevel = PRIVILEGE_LEVEL_MACHINE then
    raiseException EXCEPTION_ECALL_FROM_MMODE
  else if vm.hart.privilegeLevel = PRIVILEGE_LEVEL_SUPERVISOR then
    raiseException EXCEPTION_ECALL_FROM_SMODE
  else if vm.hart.privilegeLevel = PRIVILEGE_LEVEL_USER then
    raiseException EXCEPTION_ECALL_FROM_UMODE
  else
    throw .exit

/-- `wfi_callback`. -/
def wfiCallback : VmM Unit :=
  hartIdle

/-- `ebreak_callback`: the debugger shell, which leaves the guest as it found it. -/
def ebreakCallback : VmM Unit :=
  pure ()

end Zelda.Vmm
