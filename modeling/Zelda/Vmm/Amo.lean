import Zelda.Vmm.Mmu
/-!
# Atomic memory operations

The slow paths behind the single AMO template, with the global reservation
table that `lr.w` and `sc.w` share.
-/

namespace Zelda.Vmm

def regWrite (index : RegIndex) (value : Word) : VmM Unit :=
  modifyHart fun h => h.setReg index value

/--
The read-modify-write slow paths differ in what they store: `combine` takes
the loaded word and `rs2`.  Both operands are copied before `rd` is written,
and the loaded word is read back from `rd`.
-/
def amoSlowpath (combine : Word → Word → Word) (rs1Index rs2Index rdIndex : RegIndex) :
    VmM Unit := do
  let vm ← get
  let rs1 := vm.hart.registers rs1Index
  let rs2 := vm.hart.registers rs2Index
  let loaded ← mmuRead32Aligned rs1
  regWrite rdIndex loaded
  let rd := (← get).hart.registers rdIndex
  mmuWrite32Aligned rs1 (combine rd rs2)

def amoaddSlowpath := amoSlowpath fun rd rs2 => rd + rs2
def amoswapSlowpath := amoSlowpath fun _ rs2 => rs2
def amoxorSlowpath := amoSlowpath fun rd rs2 => rd ^^^ rs2
def amoorSlowpath := amoSlowpath fun rd rs2 => rd ||| rs2
def amoandSlowpath := amoSlowpath fun rd rs2 => rd &&& rs2

namespace Vm

/-- The first invalid reservation slot, else the round-robin pointer. -/
def freeReservation (vm : Vm) : Fin MAX_RESERVATION_ITEMS :=
  ((List.finRange MAX_RESERVATION_ITEMS).find? fun idx => !(vm.reservations idx).valid).getD
    vm.nextPointer

/-- The first valid slot this hart holds on an address. -/
def matchingReservation (vm : Vm) (addr : Word) : Option (Fin MAX_RESERVATION_ITEMS) :=
  (List.finRange MAX_RESERVATION_ITEMS).find? fun idx =>
    (vm.reservations idx).valid && (vm.reservations idx).addr == addr &&
      (vm.reservations idx).hartid.toNat == vm.hart.hartId

/-- The reservation part of `lr_slowpath`. -/
def reserve (vm : Vm) (addr : Word) : Vm :=
  let slot := vm.freeReservation
  { vm with
    reservations := Function.update vm.reservations slot
      { addr := addr, valid := true, hartid := BitVec.ofNat 8 vm.hart.hartId }
    nextPointer := slot + 1 }

/-- `reservations[idx].valid = 0`. -/
def clearReservation (vm : Vm) (idx : Fin MAX_RESERVATION_ITEMS) : Vm :=
  { vm with
    reservations := Function.update vm.reservations idx
      { vm.reservations idx with valid := false } }

end Vm

/-- `lr_slowpath`. -/
def lrSlowpath (rs1Index _rs2Index rdIndex : RegIndex) : VmM Unit := do
  let vm ← get
  let rs1 := vm.hart.registers rs1Index
  let loaded ← mmuRead32Aligned rs1
  regWrite rdIndex loaded
  modify fun vm => vm.reserve rs1

/-- `sc_slowpath`: `rd` is cleared before the store is attempted. -/
def scSlowpath (rs1Index rs2Index rdIndex : RegIndex) : VmM Unit := do
  let vm ← get
  let rs1 := vm.hart.registers rs1Index
  let rs2 := vm.hart.registers rs2Index
  match vm.matchingReservation rs1 with
  | some idx =>
      regWrite rdIndex 0x0
      mmuWrite32Aligned rs1 rs2
      modify fun vm => vm.clearReservation idx
  | none => regWrite rdIndex 0x1

/-- `amo_instruction_slowpath`. -/
def amoInstructionSlowpath (rs1Index rs2Index rdIndex : RegIndex) (funct5 : Word) : VmM Unit :=
  match funct5 with
  | 0x0 => amoaddSlowpath rs1Index rs2Index rdIndex
  | 0x1 => amoswapSlowpath rs1Index rs2Index rdIndex
  | 0x2 => lrSlowpath rs1Index rs2Index rdIndex
  | 0x3 => scSlowpath rs1Index rs2Index rdIndex
  | 0x4 => amoxorSlowpath rs1Index rs2Index rdIndex
  | 0x8 => amoorSlowpath rs1Index rs2Index rdIndex
  | 0xc => amoandSlowpath rs1Index rs2Index rdIndex
  | _ => throw .exit

end Zelda.Vmm
