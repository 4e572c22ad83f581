import Zelda.Vmm.Trap
/-!
# Interrupts

Device-driven pending bits, interrupt delivery at translation unit boundaries,
and idling.
-/

namespace Zelda.Vmm

def INTERRUPT_SUPERVISOR_SOFTWARE : Nat := 0x1
def INTERRUPT_MACHINE_SOFTWARE : Nat := 0x3
def INTERRUPT_SUPERVISOR_TIMER : Nat := 0x5
def INTERRUPT_MACHINE_TIMER : Nat := 0x7
def INTERRUPT_SUPERVISOR_EXTERNAL : Nat := 0x9
def INTERRUPT_MACHINE_EXTERNAL : Nat := 0xb

def CONSOLE_POLL_INTERVAL : Word := 4096

/-- Assign bit `n` of an interrupt blob. -/
def assignBit (blob : Word) (n : Nat) (flag : Bool) : Word :=
  (blob &&& ~~~(1#32 <<< n)) ||| ((BitVec.ofBool flag).setWidth 32 <<< n)

namespace Hart

/-- `interrupt_target_privilege_level`. -/
def interruptTargetPrivilegeLevel (h : Hart) (vector : Nat) : BitVec 2 :=
  if h.idelegation &&& (1#32 <<< vector) ≠ 0 then PRIVILEGE_LEVEL_SUPERVISOR
  else PRIVILEGE_LEVEL_MACHINE

/-- `is_interrupt_deliverable`. -/
def isInterruptDeliverable (h : Hart) (vector : Nat) : Bool :=
  let targetPl := h.interruptTargetPrivilegeLevel vector
  if h.ipending &&& (1#32 <<< vector) = 0 ∨ h.ienable &&& (1#32 <<< vector) = 0 then false
  else if targetPl < h.privilegeLevel then false
  else if h.privilegeLevel < targetPl then true
  else if targetPl = PRIVILEGE_LEVEL_MACHINE then h.status.mie
  else h.status.sie

end Hart

/-- `deliver_interrupt`. -/
def deliverInterrupt {α : Type} (vector : Nat) : VmM α := do
  let vm ← get
  raiseTrapRaw (vm.hart.interruptTargetPrivilegeLevel vector)
    (0x80000000#32 ||| BitVec.ofNat 32 vector) 0

/--
`uart_poll_input`: take what the terminal has waiting, at most 64 characters,
ending the process on the operator's escape sequence.
-/
def uartPollInput : VmM Unit := do
  let vm ← get
  if ¬vm.uart.consoleAttached then pure ()
  else
    match vm.hostInput with
    | [] => pure ()
    | waiting :: later =>
        let buf := waiting.take 64
        let left := waiting.drop 64
        let hostInput := if left.isEmpty then later else left :: later
        match vm.uart.receive buf with
        | some uart => set { vm with uart := uart, hostInput := hostInput }
        | none => throw .exit

/-- `clint_refresh_pending`. -/
def clintRefreshPending : VmM Unit :=
  modify fun vm =>
    let id := vm.hart.hartId
    let ipending := assignBit vm.hart.ipending 7 (vm.clint.mtimecmp id ≤ vm.clint.mtime)
    { vm with hart := { vm.hart with ipending := assignBit ipending 3 (vm.clint.msip id != 0) } }

/-- `plic_refresh_pending`. -/
def plicRefreshPending : VmM Unit :=
  modify fun vm =>
    let mcontext := vm.hart.hartId * 2
    let scontext := vm.hart.hartId * 2 + 1
    let ipending := assignBit vm.hart.ipending 11 (vm.plic.bestSource mcontext != 0)
    { vm with hart := { vm.hart with
      ipending := assignBit ipending 9 (vm.plic.bestSource scontext != 0) } }

/-- `refresh_device_interrupts`. -/
def refreshDeviceInterrupts : VmM Unit := do
  let vm ← get
  if vm.pollCountdown = 0 then
    set { vm with pollCountdown := CONSOLE_POLL_INTERVAL }
    uartPollInput
  else
    set { vm with pollCountdown := vm.pollCountdown - 1 }
  uartRefreshInterrupt
  clintRefreshPending
  plicRefreshPending

/-- The order `pump_devices_and_deliver_interrupts` tries vectors in. -/
def deliveryOrder : List Nat :=
  [INTERRUPT_MACHINE_EXTERNAL, INTERRUPT_MACHINE_SOFTWARE, INTERRUPT_MACHINE_TIMER,
    INTERRUPT_SUPERVISOR_EXTERNAL, INTERRUPT_SUPERVISOR_SOFTWARE, INTERRUPT_SUPERVISOR_TIMER]

/-- The delivery loop. -/
def deliverFirst : List Nat → VmM Unit
  | [] => pure ()
  | vector :: rest => do
      let vm ← get
      if vm.hart.isInterruptDeliverable vector then deliverInterrupt vector
      else deliverFirst rest

/-- `pump_devices_and_deliver_interrupts`. -/
def pumpDevicesAndDeliverInterrupts : VmM Unit := do
  modify fun vm => { vm with clint := vm.clint.advanceTime vm.ticksPerTranslationUnit }
  refreshDeviceInterrupts
  deliverFirst deliveryOrder

/-- The loop of `hart_idle`, `n` rounds of it. -/
def hartIdleLoop : Nat → VmM Unit
  | 0 => pure ()
  | n + 1 => do
      uartPollInput
      refreshDeviceInterrupts
      let vm ← get
      if vm.hart.ipending &&& vm.hart.ienable ≠ 0 then pure ()
      else
        -- With no timer armed the source sleeps before it polls again.
        set { vm with clint := vm.clint.skipToNextDeadline.2 }
        hartIdleLoop n

/-- `hart_idle`. -/
def hartIdle : VmM Unit :=
  hartIdleLoop 64

end Zelda.Vmm
