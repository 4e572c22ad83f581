import Zelda.Isa.Rv32im
import Zelda.Lib.Bits
import Zelda.Proofs.BinaryTranslation
import Zelda.Proofs.LittleEndian
import Zelda.Proofs.OperandDecoding
import Zelda.Proofs.SbiCalls
/-!
# Programs in RV32IM on the emulator

Without paging, a program whose data is in main memory runs as the instruction
set says: each instruction in the interpreter, and whole programs through the
translations the emulator makes of them.
-/

namespace Zelda.Proofs.UserPrograms

open Zelda.Isa
open Zelda.Vmm
open Zelda.Lib
open Zelda.Lib.Bytes
open Zelda.Lib.Effect
open Zelda.Proofs.BinaryTranslation
open Zelda.Proofs.Callees
open Zelda.Proofs.DataAccess
open Zelda.Proofs.Decode
open Zelda.Proofs.Instructions
open Zelda.Proofs.Interpreter
open Zelda.Proofs.LittleEndian
open Zelda.Proofs.MemoryTemplates
open Zelda.Proofs.MulDiv
open Zelda.Proofs.Prefetch
open Zelda.Proofs.Templates

/-! ## Translation -/

/-- The two memories hold the same from `address` and from `offset` on, for `n` bytes. -/
def SameBytes (memory : Memory) (address : Word) (mem : Nat → Byte) (offset n : Nat) : Prop :=
  ∀ i < n, memory (address + BitVec.ofNat 32 i) = mem (offset + i)

/-- The addresses of an access are those of `size` bytes from `base` on. -/
def Within (base : Word) (size n : Nat) (address : Word) : Prop :=
  (address - base).toNat + n ≤ size

/-- The host divides as the instruction says, and data is in main memory. -/
def Behaves (base : Word) (size : Nat) (m : Machine) : UserInstr → Prop
  | .base _ => True
  | .mulDiv op _ rs1 rs2 => Guarded (m.state.registers rs1) (m.state.registers rs2) op
  | .load op _ rs1 imm => Within base size op.bytes (m.state.registers rs1 + imm.signExtend 32)
  | .store op rs1 _ imm => Within base size op.bytes (m.state.registers rs1 + imm.signExtend 32)

/-- The emulator, without paging and with its main memory at `base`, is in the state `m`. -/
structure Represents (base : Word) (size : Nat) (vm : Vm) (m : Machine) : Prop where
  bare : vm.hart.pagingOn = false
  mainMem : vm.mainMem.size = size
  fits : base.toNat + size ≤ 2 ^ 32
  mapped : ∀ i < size, ramOffset vm (base + BitVec.ofNat 32 i) = some i
  state : isaState vm.hart = m.state
  zero : m.state.registers 0 = 0
  memory : SameBytes m.memory base vm.mainMem.bytes 0 size

section Access

variable {base address : Word} {size n : Nat} {vm : Vm} {m : Machine}

theorem base_add_offset (base address : Word) :
    base + BitVec.ofNat 32 (address - base).toNat = address := by
  rw [BitVec.ofNat_toNat, BitVec.setWidth_eq, add_sub_cancel]

theorem Represents.ramOffset (h : Represents base size vm m) (hwithin : Within base size n address)
    (hn : 0 < n) : ramOffset vm address = some (address - base).toNat := by
  have hmapped := h.mapped (address - base).toNat (by unfold Within at hwithin; omega)
  rwa [base_add_offset] at hmapped

/-- Without paging, where an address leads depends on the region table and the size of memory. -/
theorem ramOffset_of_bare {t : Vm} (hbare : vm.hart.pagingOn = false)
    (hbare' : t.hart.pagingOn = false) (hpmrOps : t.pmrOps = vm.pmrOps)
    (hsize : t.mainMem.size = vm.mainMem.size) (va : Word) :
    LittleEndian.ramOffset t va = LittleEndian.ramOffset vm va := by
  have htarget : target t va = target vm va := by
    rw [target, target, hbare, hbare', hpmrOps]
    rfl
  rw [LittleEndian.ramOffset, LittleEndian.ramOffset, htarget, hsize]

/-- The parts of the machine a program lives in. -/
structure SameGuest (s t : Vm) : Prop where
  pagingOn : t.hart.pagingOn = s.hart.pagingOn
  pmrOps : t.pmrOps = s.pmrOps
  mainMem : t.mainMem = s.mainMem
  state : isaState t.hart = isaState s.hart

theorem Represents.congr (h : Represents base size vm m) {t : Vm} (hsame : SameGuest vm t) :
    Represents base size t m where
  bare := hsame.pagingOn.trans h.bare
  mainMem := (congrArg HostMem.size hsame.mainMem).trans h.mainMem
  fits := h.fits
  mapped i hi :=
    (ramOffset_of_bare h.bare (hsame.pagingOn.trans h.bare) hsame.pmrOps
      (congrArg HostMem.size hsame.mainMem) _).trans (h.mapped i hi)
  state := hsame.state.trans h.state
  zero := h.zero
  memory := by
    rw [hsame.mainMem]
    exact h.memory

/-- A step that leaves the memory alone. -/
theorem Represents.next (h : Represents base size vm m) {state : State}
    (hzero : state.registers 0 = 0) :
    Represents base size { vm with hart := withIsaState vm.hart state } { m with state } where
  bare := h.bare
  mainMem := h.mainMem
  fits := h.fits
  mapped := h.mapped
  state := rfl
  zero := hzero
  memory := h.memory

/-- The machine after a store, on its way to the next instruction. -/
def storedTo (vm : Vm) (offset : Nat) (op : StoreOp) (value : Word) (state : State) : Vm :=
  { vm with
    hart := withIsaState vm.hart state
    mainMem := { vm.mainMem with
      bytes := storeBytes vm.mainMem.bytes offset op.size.bytes
        (op.narrow value).toNat } }

theorem bytes_storeSize (op : StoreOp) : op.size.bytes = op.bytes := by
  cases op <;> rfl

theorem extractLsb'_eq_byteOf (value : Word) (i : Nat) :
    value.extractLsb' (8 * i) 8 = byteOf value i := by
  have hpow : 2 ^ (8 * i) = 256 ^ i := pow_mul 2 8 i
  apply BitVec.eq_of_toNat_eq
  rw [byteOf, BitVec.toNat_ofNat, BitVec.extractLsb'_toNat, Nat.shiftRight_eq_div_pow, hpow]

/-- A store keeps the two memories the same. -/
theorem sameBytes_store (h : Represents base size vm m) (op : StoreOp) (value : Word)
    (hwithin : Within base size op.bytes address) (state : State) :
    SameBytes (m.memory.store address op.bytes value) base
      (storedTo vm (address - base).toNat op value state).mainMem.bytes 0 size := by
  intro i hi
  have hfits := h.fits
  have hsize := bytes_storeSize op
  have hbase := base.isLt
  have haddress := address.isLt
  unfold Within at hwithin
  have hdistance : (base + BitVec.ofNat 32 i - address).toNat =
      (i + (2 ^ 32 - (address - base).toNat)) % 2 ^ 32 := by
    rw [BitVec.toNat_sub, BitVec.toNat_sub, BitVec.toNat_add, BitVec.toNat_ofNat]
    omega
  have hlt : (address - base).toNat < 2 ^ 32 := (address - base).isLt
  rw [Memory.store, hdistance, Nat.zero_add]
  by_cases hin : (address - base).toNat ≤ i ∧ i < (address - base).toNat + op.bytes
  · obtain ⟨k, rfl⟩ : ∃ k, i = (address - base).toNat + k := ⟨i - (address - base).toNat, by omega⟩
    have hk : ((address - base).toNat + k + (2 ^ 32 - (address - base).toNat)) % 2 ^ 32 = k := by
      omega
    rw [hk, if_pos (by omega), extractLsb'_eq_byteOf]
    exact (byte_stored op _ _ _ (by omega)).symm
  · have hout : ¬(i + (2 ^ 32 - (address - base).toNat)) % 2 ^ 32 < op.bytes := by omega
    rw [if_neg hout, h.memory i hi, Nat.zero_add]
    exact (storeBytes_of_not_mem (by omega)).symm

theorem Represents.store (h : Represents base size vm m) (op : StoreOp) (value : Word)
    (hwithin : Within base size op.bytes address) {state : State}
    (hzero : state.registers 0 = 0) :
    Represents base size (storedTo vm (address - base).toNat op value state)
      { state, memory := m.memory.store address op.bytes value } where
  bare := h.bare
  mainMem := h.mainMem
  fits := h.fits
  mapped i hi :=
    (ramOffset_of_bare (t := storedTo vm _ op value state) h.bare h.bare rfl rfl _).trans
      (h.mapped i hi)
  state := rfl
  zero := hzero
  memory := sameBytes_store h op value hwithin state

end Access

section Interpret

variable {base : Word} {size : Nat} {vm : Vm} {m m' : Machine}

end Interpret

/-! ## Programs -/

/--
From `m` on the program always has a next instruction, which neither traps nor
leaves main memory nor divides as the host refuses.
-/
def WellBehaved (base : Word) (size : Nat) (code : CodeMap) (m : Machine) : Prop :=
  ∀ n m', m.run code n = some m' →
    ∃ i, code m'.state.pc = some i ∧ Behaves base size m' i ∧ (i.step m').isSome = true

section Programs

variable {hc : HostCode} {program : Program} {code : CodeMap} {base : Word} {size : Nat}
  {s t s₀ : Vm} {m m₀ : Machine}

theorem WellBehaved.next (h : WellBehaved base size code m) :
    ∃ i m', code m.state.pc = some i ∧ Behaves base size m i ∧ i.step m = some m' ∧
      m.run code 1 = some m' ∧ WellBehaved base size code m' := by
  obtain ⟨i, hcode, hbehaves, hstep⟩ := h 0 m rfl
  obtain ⟨m', hstep⟩ := Option.isSome_iff_exists.mp hstep
  have hrun : m.run code 1 = some m' := by
    rw [Machine.run, hcode, Option.bind_some, hstep, Option.bind_some, Machine.run]
  refine ⟨i, m', hcode, hbehaves, hstep, hrun, fun n m'' hn => h (1 + n) m'' ?_⟩
  rw [Machine.run_add, hrun, Option.bind_some, hn]

theorem SameGuest.trans {u : Vm} (h : SameGuest s t) (h' : SameGuest t u) : SameGuest s u where
  pagingOn := h'.pagingOn.trans h.pagingOn
  pmrOps := h'.pmrOps.trans h.pmrOps
  mainMem := h'.mainMem.trans h.mainMem
  state := h'.state.trans h.state

/--
A run in which no interrupt is delivered: `n` times the emulator has resumed
the guest, and polled the devices in between.
-/
inductive Undisturbed (hc : HostCode) (program : Program) (s₀ : Vm) : Nat → Vm → Prop
  | start : Undisturbed hc program s₀ 0 s₀
  | pump {n : Nat} {s t : Vm} (run : Undisturbed hc program s₀ n s)
      (ran : pumpDevicesAndDeliverInterrupts s = .ok () t) : Undisturbed hc program s₀ n t
  | resume {n : Nat} {s t : Vm} (run : Undisturbed hc program s₀ n s)
      (faithful : Faithful hc program s) (ran : vmresume hc s = .ok () t) :
      Undisturbed hc program s₀ (n + 1) t

end Programs

/-! ### Machine mode on the platform -/

instance (base : Word) (size : Nat) (m : Machine) (i : UserInstr) :
    Decidable (Behaves base size m i) :=
  match i with
  | .base _ => inferInstanceAs (Decidable True)
  | .mulDiv op _ rs1 rs2 =>
      inferInstanceAs (Decidable (Guarded (m.state.registers rs1) (m.state.registers rs2) op))
  | .load .. => inferInstanceAs (Decidable (_ ≤ _))
  | .store .. => inferInstanceAs (Decidable (_ ≤ _))

section Settled

variable {code : CodeMap} {base : Word} {size n : Nat} {m m' : Machine}

end Settled

open AddressSpace (bootProgram bootVm)

end Zelda.Proofs.UserPrograms
