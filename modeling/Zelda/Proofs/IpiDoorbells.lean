import Zelda.Proofs.RegionTable
import Zelda.Proofs.SbiCalls
/-!
# The doorbells of an SBI IPI call

The firmware rings hart `h` by a store to the word `CLINT_BASE + 4 * h`, for
whatever index the kernel names.  An index beyond the harts of the machine is
the address of something else: another register of the CLINT, another device,
memory, or nothing at all.
-/

namespace Zelda.Proofs.IpiDoorbells

open Zelda.Vmm
open Zelda.Firmware
open Zelda.Lib.Effect
open Zelda.Proofs.DataAccess
open Zelda.Proofs.PageWalk
open Zelda.Proofs.RegionTable
open Zelda.Proofs.SbiCalls

/-! ## What a call may do -/

/-- The mask and the base select hart `h`. -/
def Selected (mask base : Word) (h : Nat) : Prop :=
  ∃ bit, bit < 32 ∧ mask &&& (1#32 <<< bit) ≠ 0 ∧ (base + BitVec.ofNat 32 bit).toNat = h

/-- A machine of `n` harts, while the firmware runs. -/
structure Machine (n : Nat) (s : Vm) : Prop where
  platform : Platform s
  harts : s.clint.nrHarts = n
  plicBase : s.plic.base = 0x0c000000
  contexts : s.plic.nrContexts = 2 * n
  level : s.hart.privilegeLevel = PRIVILEGE_LEVEL_MACHINE

/-- Of memory and devices, only the doorbells of selected harts have changed, and those ring. -/
structure OnlyDoorbells (mask base : Word) (s t : Vm) : Prop where
  mainMem : t.mainMem = s.mainMem
  bootrom : t.bootrom = s.bootrom
  plic : t.plic = s.plic
  uart : t.uart = s.uart
  clint : t.clint = { s.clint with msip := t.clint.msip }
  rung : ∀ h, h < s.clint.nrHarts → Selected mask base h → t.clint.msip h = 1
  kept : ∀ h, ¬(h < s.clint.nrHarts ∧ Selected mask base h) → t.clint.msip h = s.clint.msip h

/-- On every machine of `n` harts, the IPI call with this mask and base only rings doorbells. -/
def TouchesOnlyDoorbells (n : Nat) (mask base : Word) : Prop :=
  ∀ (frame : TrapFrame) (s : Vm), frame REG_A0 = mask → frame REG_A1 = base → Machine n s →
    ∃ frame' t, sbiModernCall frame SBI_EXT_IPI 0 s = .ok frame' t ∧ OnlyDoorbells mask base s t

/-! ## What stands at an address -/

/-- The CLINT has a register for an existing hart at `a`, or its clock. -/
def ClintTakes (n a : Nat) : Prop :=
  0x02000000 ≤ a ∧ a < 0x02000000 + 4 * n ∨
    0x02004000 ≤ a ∧ a < 0x02004000 + 8 * n ∨
    0x0200bff8 ≤ a ∧ a < 0x0200c000

/-- The PLIC has a writable register at `a`. -/
def PlicTakes (n a : Nat) : Prop :=
  0x0c000004 ≤ a ∧ a < 0x0c000080 ∨
    0x0c002000 ≤ a ∧ a < 0x0c200000 ∧
      (a - 0x0c002000) / 0x80 < 2 * n ∧ (a - 0x0c002000) % 0x80 < 4 ∨
    0x0c200000 ≤ a ∧ a < 0x10000000 ∧
      (a - 0x0c200000) / 0x1000 < 2 * n ∧ (a - 0x0c200000) % 0x1000 < 8

/-- A store of a one to `a` is kept by memory or by a register. -/
def Takes (n a : Nat) : Prop :=
  a < 0x00400000 ∨ ClintTakes n a ∨ PlicTakes n a ∨ 0x80000000 ≤ a ∧ a < 0x90000000

/-- The address is mapped, but nothing there takes the store. -/
def Idle (n : Nat) (a : Word) : Prop :=
  (∃ pmr ∈ platformRegions, Contains pmr a) ∧ ¬Takes n a.toNat

/-- The word `sbi_send_ipi` stores to. -/
def doorbell (hart : Word) : Word :=
  CLINT_BASE + CLINT_MSIP_OFFSET + 4 * hart

theorem toNat_doorbell (hart : Word) :
    (doorbell hart).toNat = (0x02000000 + 4 * hart.toNat) % 2 ^ 32 := by
  unfold doorbell CLINT_BASE CLINT_MSIP_OFFSET
  simp [BitVec.toNat_add, BitVec.toNat_mul]

theorem doorbell_aligned (hart : Word) : (doorbell hart).toNat % 4 = 0 := by
  rw [toNat_doorbell]
  omega

/-! ## Device writes -/

section Devices

variable {n : Nat} {a : Word}

theorem toNat_sub_base {base : Word} (h : base.toNat ≤ a.toNat) :
    (a - base).toNat = a.toNat - base.toNat :=
  BitVec.toNat_sub_of_le h

theorem setLow_one_ne_zero (old : DWord) : Clint.setLow old 1 ≠ 0 := by
  intro hzero
  have hbit := congrArg (fun x : DWord => x.getLsbD 0) hzero
  simp [Clint.setLow] at hbit

theorem setHigh_one_ne_zero (old : DWord) : Clint.setHigh old 1 ≠ 0 := by
  intro hzero
  have hbit := congrArg (fun x : DWord => x.getLsbD 32) hzero
  simp [Clint.setHigh] at hbit

/-- Everything a store of a one can do to the CLINT. -/
theorem clint_write_cases {c : Clint} (hbase : c.base = CLINT_BASE) (hn : c.nrHarts = n)
    (halign : a.toNat % 4 = 0) (hlow : 0x02000000 ≤ a.toNat) (hhigh : a.toNat < 0x02010000) :
    (∃ k, k < n ∧ a.toNat = 0x02000000 + 4 * k ∧
      c.write a .b4 1 = { c with msip := Function.update c.msip k 1 }) ∨
    ClintTakes n a.toNat ∧
      ((∃ id cmp, cmp ≠ 0 ∧
          c.write a .b4 1 = { c with mtimecmp := Function.update c.mtimecmp id cmp }) ∨
        ∃ time, time ≠ 0 ∧ c.write a .b4 1 = { c with mtime := time }) ∨
    ¬ClintTakes n a.toNat ∧ c.write a .b4 1 = c := by
  have hmax := c.nrHarts_le
  have hoffset : (a - c.base).toNat = a.toNat - 0x02000000 := by
    rw [hbase]
    exact toNat_sub_base hlow
  subst hn
  generalize hwrite : c.write a .b4 1 = d
  unfold Clint.write at hwrite
  unfold ClintTakes
  simp only [hoffset, CLINT_REG_MSIP, CLINT_REG_MTIMECMP, CLINT_REG_MTIME, MAX_NR_HARTS,
    reduceCtorEq, if_false] at hwrite
  simp only [MAX_NR_HARTS] at hmax
  split_ifs at hwrite with hmsip hid hcmp hid hword htime htime <;> subst hwrite
  · exact .inl ⟨_, hid, by omega, rfl⟩
  · exact .inr (.inr ⟨by omega, rfl⟩)
  · exact .inr (.inl ⟨by omega, .inl ⟨_, _, setHigh_one_ne_zero _, rfl⟩⟩)
  · exact .inr (.inl ⟨by omega, .inl ⟨_, _, setLow_one_ne_zero _, rfl⟩⟩)
  · exact .inr (.inr ⟨by omega, rfl⟩)
  · exact .inr (.inl ⟨by omega, .inr ⟨_, setLow_one_ne_zero _, rfl⟩⟩)
  · exact .inr (.inl ⟨by omega, .inr ⟨_, setHigh_one_ne_zero _, rfl⟩⟩)
  · exact .inr (.inr ⟨by omega, rfl⟩)

/-- Everything a store of a one can do to the PLIC. -/
theorem plic_write_cases {p : Plic} (hbase : p.base = 0x0c000000) (hn : p.nrContexts = 2 * n)
    (halign : a.toNat % 4 = 0) (hlow : 0x0c000000 ≤ a.toNat) (hhigh : a.toNat < 0x10000000) :
    PlicTakes n a.toNat ∧
      ((∃ source, p.write a 1 = { p with priority := Function.update p.priority source 1 }) ∨
        (∃ context, p.write a 1 = { p with enable := Function.update p.enable context 1 }) ∨
        (∃ context, p.write a 1 = { p with threshold := Function.update p.threshold context 1 }) ∨
        p.write a 1 = p.complete 1) ∨
    ¬PlicTakes n a.toNat ∧ p.write a 1 = p := by
  have hoffset : (a - p.base).toNat = a.toNat - 0x0c000000 := by
    rw [hbase]
    exact toNat_sub_base hlow
  -- one copy of the outcome, for the case split goes through all of them
  generalize hwrite : p.write a 1 = q
  unfold Plic.write at hwrite
  unfold PlicTakes
  simp only [hoffset, PLIC_NR_SOURCES, PLIC_REG_PENDING_BASE, PLIC_REG_ENABLE_BASE,
    PLIC_REG_CONTEXT_BASE, PLIC_REG_ENABLE_STRIDE, PLIC_REG_CONTEXT_STRIDE,
    PLIC_REG_CONTEXT_THRESHOLD, PLIC_REG_CONTEXT_CLAIM] at hwrite
  split_ifs at hwrite with hpriority hzero hpending henable hcontext hcontexts hcontext hthreshold
    hclaim <;> subst hwrite
  · exact .inr ⟨by omega, rfl⟩
  · exact .inl ⟨by omega, .inl ⟨_, rfl⟩⟩
  · exact .inr ⟨by omega, rfl⟩
  · exact .inl ⟨by omega, .inr (.inl ⟨_, rfl⟩)⟩
  · exact .inr ⟨by omega, rfl⟩
  · exact .inl ⟨by omega, .inr (.inr (.inl ⟨_, rfl⟩))⟩
  · exact .inl ⟨by omega, .inr (.inr (.inr rfl))⟩
  · exact .inr ⟨by omega, rfl⟩
  · exact .inr ⟨by omega, rfl⟩
  · exact .inr ⟨by omega, rfl⟩

end Devices

/-! ## One store -/

/-- Nothing holds what a store of a one leaves behind, doorbells apart. -/
structure Untouched (t : Vm) : Prop where
  mainMem : ∀ i, t.mainMem.bytes i ≠ 1
  bootrom : ∀ i, t.bootrom.bytes i ≠ 1
  mtime : t.clint.mtime = 0
  mtimecmp : ∀ id, t.clint.mtimecmp id = 0
  priority : ∀ source, t.plic.priority source ≠ 1
  enable : ∀ context, t.plic.enable context ≠ 1
  threshold : ∀ context, t.plic.threshold context ≠ 1
  claimed : t.plic.claimed.getLsbD 1 = true

/-- The doorbell of hart `k` rings. -/
def ring (k : Nat) (s : Vm) : Vm :=
  { s with clint := { s.clint with msip := Function.update s.clint.msip k 1 } }

section Store

variable {n : Nat} {a : Word} {s t : Vm}

theorem Machine.harts_le (hm : Machine n s) : n ≤ 64 := by
  rw [← hm.harts]
  exact s.clint.nrHarts_le

theorem Machine.ring (hm : Machine n s) (k : Nat) : Machine n (ring k s) where
  platform := ⟨hm.platform.pmrOps, hm.platform.clintBase, hm.platform.hartId⟩
  harts := hm.harts
  plicBase := hm.plicBase
  contexts := hm.contexts
  level := hm.level

theorem store32_mapped (hm : Machine n s) {pmr : PmRegion} (hmem : pmr ∈ platformRegions)
    (hcontains : Contains pmr a) : store32 a 1 s = pmr.pmrWrite a .b4 1 s :=
  vmwrite_machine hm.platform.pmrOps hm.level hmem hcontains.1 hcontains.2 .b4 1

theorem mapped_of_store32 (hm : Machine n s) (h : store32 a 1 s = .ok () t) :
    ∃ pmr ∈ platformRegions, Contains pmr a := by
  have hoff : ¬s.hart.pagingOn = true := by
    rw [pagingOn_machine hm.level]
    decide
  unfold store32 at h
  rw [vmwrite_apply] at h
  unfold target at h
  rw [if_neg hoff, hm.platform.pmrOps] at h
  cases hsearch : searchPmRegionCallback platformRegions a with
  | none =>
      rw [hsearch] at h
      cases h
  | some found =>
      cases found with
      | none =>
          rw [hsearch] at h
          cases h
      | some pmr =>
          obtain ⟨hmem, hlow, hhigh⟩ := searchPmRegionCallback_sound hsearch
          exact ⟨pmr, hmem, hlow, hhigh⟩

/-- The byte a store of a one leaves at its address. -/
theorem bytes_store {mem mem' : HostMem} {offset : Nat} (h : mem.store offset .b4 1 = some mem') :
    mem'.bytes offset = 1 := by
  unfold HostMem.store at h
  split at h
  · cases h
    exact Zelda.Lib.Bytes.storeBytes_add (i := 0) (by decide)
  · cases h

theorem bootromWrite_eq {pmr : PmRegion} (halign : a.toNat % 4 = 0)
    (hpmr : pmr.addrHigh.toNat % 4 = 0) (hhigh : a.toNat < pmr.addrHigh.toNat)
    (h : bootromWrite pmr a .b4 1 s = .ok () t) :
    ∃ mem i, mem.bytes i = 1 ∧ t = { s with bootrom := mem } := by
  have hinside : ¬pmr.addrHigh.toNat < a.toNat + AccessSize.b4.bytes := by
    simp only [AccessSize.bytes]
    omega
  unfold bootromWrite at h
  rw [bind_apply_ok (get_apply s), if_neg hinside] at h
  cases hstore : s.bootrom.store (pmr.offset a) .b4 1 with
  | none =>
      rw [hstore] at h
      cases h
  | some mem =>
      rw [hstore] at h
      cases h
      exact ⟨mem, _, bytes_store hstore, rfl⟩

theorem ramWrite_eq {pmr : PmRegion} (h : ramWrite pmr a .b4 1 s = .ok () t) :
    ∃ mem i, mem.bytes i = 1 ∧ t = { s with mainMem := mem } := by
  unfold ramWrite at h
  rw [bind_apply_ok (get_apply s)] at h
  cases hstore : s.mainMem.store (pmr.offset a) .b4 1 with
  | none =>
      rw [hstore] at h
      cases h
  | some mem =>
      rw [hstore] at h
      cases h
      exact ⟨mem, _, bytes_store hstore, rfl⟩

/-- A write of the PLIC that keeps it untouched does nothing. -/
theorem plic_write_untouched (hm : Machine n s) (halign : a.toNat % 4 = 0)
    (hlow : 0x0c000000 ≤ a.toNat) (hhigh : a.toNat < 0x10000000)
    (ht : Untouched { s with plic := s.plic.write a 1 }) :
    ¬PlicTakes n a.toNat ∧ s.plic.write a 1 = s.plic := by
  rcases plic_write_cases hm.plicBase hm.contexts halign hlow hhigh with
    ⟨-, ⟨source, hw⟩ | ⟨context, hw⟩ | ⟨context, hw⟩ | hw⟩ | hidle
  · rw [hw] at ht
    exact absurd (Function.update_self ..) (ht.priority source)
  · rw [hw] at ht
    exact absurd (Function.update_self ..) (ht.enable context)
  · rw [hw] at ht
    exact absurd (Function.update_self ..) (ht.threshold context)
  · rw [hw] at ht
    have hclaimed := ht.claimed
    simp [Plic.complete, Plic.sourceBit, PLIC_NR_SOURCES] at hclaimed
  · exact hidle

/-- What is not taken leaves the machine as it is. -/
theorem store32_idle (hm : Machine n s) (halign : a.toNat % 4 = 0) (hidle : Idle n a) :
    store32 a 1 s = .ok () s := by
  obtain ⟨⟨pmr, hmem, hcontains⟩, hnot⟩ := hidle
  rw [store32_mapped hm hmem hcontains]
  simp only [platformRegions, List.mem_cons, List.not_mem_nil, or_false] at hmem
  obtain ⟨hlow, hhigh⟩ := hcontains
  rw [BitVec.le_def] at hlow
  rw [BitVec.lt_def] at hhigh
  rcases hmem with rfl | rfl | rfl | rfl | rfl | rfl
  · exact absurd (.inl hhigh) hnot
  · rfl
  · have hsame : s.clint.write a .b4 1 = s.clint := by
      rcases clint_write_cases hm.platform.clintBase hm.harts halign hlow hhigh with
        ⟨k, hk, haddress, -⟩ | ⟨htakes, -⟩ | ⟨-, hw⟩
      · exact absurd (.inr (.inl (.inl ⟨by omega, by omega⟩))) hnot
      · exact absurd (.inr (.inl htakes)) hnot
      · exact hw
    change EStateM.Result.ok () { s with clint := s.clint.write a .b4 1 } = _
    rw [hsame]
  · have hsame : s.plic.write a 1 = s.plic := by
      rcases plic_write_cases hm.plicBase hm.contexts halign hlow hhigh with ⟨htakes, -⟩ | ⟨-, hw⟩
      · exact absurd (.inr (.inr (.inl htakes))) hnot
      · exact hw
    change EStateM.Result.ok () { s with plic := s.plic.write a 1 } = _
    rw [hsame]
  · rfl
  · exact absurd (.inr (.inr (.inr ⟨hlow, hhigh⟩))) hnot

/-- Everything a store of a one can do that leaves the machine untouched. -/
theorem store32_cases (hm : Machine n s) (halign : a.toNat % 4 = 0)
    (h : store32 a 1 s = .ok () t) (ht : Untouched t) :
    (∃ k, k < n ∧ a.toNat = 0x02000000 + 4 * k ∧ t = ring k s) ∨ Idle n a ∧ t = s := by
  obtain ⟨pmr, hmem, hcontains⟩ := mapped_of_store32 hm h
  have hmapped : ∃ pmr ∈ platformRegions, Contains pmr a := ⟨pmr, hmem, hcontains⟩
  have hmax := hm.harts_le
  rw [store32_mapped hm hmem hcontains] at h
  simp only [platformRegions, List.mem_cons, List.not_mem_nil, or_false] at hmem
  obtain ⟨hlow, hhigh⟩ := hcontains
  rw [BitVec.le_def] at hlow
  rw [BitVec.lt_def] at hhigh
  rcases hmem with rfl | rfl | rfl | rfl | rfl | rfl
  · obtain ⟨mem, i, hone, rfl⟩ := bootromWrite_eq halign (by decide) hhigh h
    exact absurd hone (ht.bootrom i)
  · cases h
    have hlow : 0x00400000 ≤ a.toNat := hlow
    have hhigh : a.toNat < 0x00401000 := hhigh
    exact .inr ⟨⟨hmapped, by unfold Takes ClintTakes PlicTakes; omega⟩, rfl⟩
  · obtain rfl : { s with clint := s.clint.write a .b4 1 } = t := by
      cases h
      rfl
    rcases clint_write_cases hm.platform.clintBase hm.harts halign hlow hhigh with
      ⟨k, hk, haddress, hw⟩ | ⟨-, ⟨id, cmp, hne, hw⟩ | ⟨time, hne, hw⟩⟩ | ⟨hidle, hw⟩
    · exact .inl ⟨k, hk, haddress, by rw [hw]; rfl⟩
    · have hcmp := ht.mtimecmp id
      simp only [hw, Function.update_self] at hcmp
      exact absurd hcmp hne
    · have htime := ht.mtime
      simp only [hw] at htime
      exact absurd htime hne
    · have hlow : 0x02000000 ≤ a.toNat := hlow
      have hhigh : a.toNat < 0x02010000 := hhigh
      have hnot : ¬Takes n a.toNat := by
        unfold Takes PlicTakes
        unfold ClintTakes at hidle ⊢
        omega
      exact .inr ⟨⟨hmapped, hnot⟩, by rw [hw]⟩
  · obtain rfl : { s with plic := s.plic.write a 1 } = t := by
      cases h
      rfl
    obtain ⟨hidle, hw⟩ := plic_write_untouched hm halign hlow hhigh ht
    have hlow : 0x0c000000 ≤ a.toNat := hlow
    have hhigh : a.toNat < 0x10000000 := hhigh
    have hnot : ¬Takes n a.toNat := by
      unfold Takes ClintTakes
      unfold PlicTakes at hidle ⊢
      omega
    exact .inr ⟨⟨hmapped, hnot⟩, by rw [hw]⟩
  · cases h
    have hlow : 0x10000000 ≤ a.toNat := hlow
    have hhigh : a.toNat < 0x10000100 := hhigh
    exact .inr ⟨⟨hmapped, by unfold Takes ClintTakes PlicTakes; omega⟩, rfl⟩
  · obtain ⟨mem, i, hone, rfl⟩ := ramWrite_eq h
    exact absurd hone (ht.mainMem i)

/-- No store changes what kind of machine this is. -/
theorem Machine.store32 (hm : Machine n s) (halign : a.toNat % 4 = 0)
    (h : store32 a 1 s = .ok () t) : Machine n t := by
  obtain ⟨⟨hops, hbase, hhart⟩, hharts, hplic, hcontexts, hlevel⟩ := hm
  have hm : Machine n s := ⟨⟨hops, hbase, hhart⟩, hharts, hplic, hcontexts, hlevel⟩
  obtain ⟨pmr, hmem, hcontains⟩ := mapped_of_store32 hm h
  rw [store32_mapped hm hmem hcontains] at h
  simp only [platformRegions, List.mem_cons, List.not_mem_nil, or_false] at hmem
  obtain ⟨hlow, hhigh⟩ := hcontains
  rw [BitVec.le_def] at hlow
  rw [BitVec.lt_def] at hhigh
  rcases hmem with rfl | rfl | rfl | rfl | rfl | rfl
  · obtain ⟨mem, i, -, rfl⟩ := bootromWrite_eq halign (by decide) hhigh h
    exact ⟨⟨hops, hbase, hhart⟩, hharts, hplic, hcontexts, hlevel⟩
  · cases h
    exact hm
  · obtain rfl : { s with clint := s.clint.write a .b4 1 } = t := by
      cases h
      rfl
    rcases clint_write_cases hbase hharts halign hlow hhigh with
      ⟨k, -, -, hw⟩ | ⟨-, ⟨id, cmp, -, hw⟩ | ⟨time, -, hw⟩⟩ | ⟨-, hw⟩ <;>
    · rw [hw]
      exact ⟨⟨hops, hbase, hhart⟩, hharts, hplic, hcontexts, hlevel⟩
  · obtain rfl : { s with plic := s.plic.write a 1 } = t := by
      cases h
      rfl
    rcases plic_write_cases hplic hcontexts halign hlow hhigh with
      ⟨-, ⟨source, hw⟩ | ⟨context, hw⟩ | ⟨context, hw⟩ | hw⟩ | ⟨-, hw⟩ <;>
    · rw [hw]
      exact ⟨⟨hops, hbase, hhart⟩, hharts, hplic, hcontexts, hlevel⟩
  · cases h
    exact hm
  · obtain ⟨mem, i, -, rfl⟩ := ramWrite_eq h
    exact ⟨⟨hops, hbase, hhart⟩, hharts, hplic, hcontexts, hlevel⟩

end Store

/-! ## The loop over the mask -/

/-- Every selected index is a hart of the machine, or the address of nothing. -/
def Harmless (n : Nat) (mask base : Word) (bits : List Nat) : Prop :=
  ∀ bit ∈ bits, mask &&& (1#32 <<< bit) ≠ 0 →
    (base + BitVec.ofNat 32 bit).toNat < n ∨ Idle n (doorbell (base + BitVec.ofNat 32 bit))

/-- One of these bits selects hart `h`. -/
def SelectedIn (mask base : Word) (bits : List Nat) (h : Nat) : Prop :=
  ∃ bit ∈ bits, mask &&& (1#32 <<< bit) ≠ 0 ∧ (base + BitVec.ofNat 32 bit).toNat = h

section Loop

variable {n : Nat} {mask base : Word} {s t : Vm}

theorem selectedIn_range (h : Nat) :
    SelectedIn mask base (List.range 32) h ↔ Selected mask base h := by
  simp only [SelectedIn, Selected, List.mem_range]

theorem selectedIn_cons {bit : Nat} {bits : List Nat} {h : Nat} :
    SelectedIn mask base (bit :: bits) h ↔
      (mask &&& (1#32 <<< bit) ≠ 0 ∧ (base + BitVec.ofNat 32 bit).toNat = h) ∨
        SelectedIn mask base bits h := by
  simp only [SelectedIn, List.mem_cons, exists_eq_or_imp]

/-- The address of a hart of the machine is taken. -/
theorem not_idle_of_lt {hart : Word} (hmax : n ≤ 64) (h : hart.toNat < n) :
    ¬Idle n (doorbell hart) := by
  rintro ⟨-, hnot⟩
  apply hnot
  rw [toNat_doorbell]
  unfold Takes ClintTakes
  omega

/-- A harmless call rings the selected harts and does nothing else. -/
theorem sendIpiLoop_rings (bits : List Nat) (hm : Machine n s)
    (hharmless : Harmless n mask base bits) :
    ∃ msip, sendIpiLoop mask base bits s =
        .ok () { s with clint := { s.clint with msip := msip } } ∧
      (∀ h, h < n → SelectedIn mask base bits h → msip h = 1) ∧
      ∀ h, ¬(h < n ∧ SelectedIn mask base bits h) → msip h = s.clint.msip h := by
  induction bits generalizing s with
  | nil => exact ⟨s.clint.msip, rfl, fun h _ ⟨_, hmem, _⟩ => absurd hmem List.not_mem_nil,
      fun _ _ => rfl⟩
  | cons bit bits ih =>
      have hrest : Harmless n mask base bits := fun b hb => hharmless b (List.mem_cons_of_mem _ hb)
      have hfirst := hharmless bit List.mem_cons_self
      unfold sendIpiLoop
      simp only [selectedIn_cons]
      by_cases hbit : mask &&& (1#32 <<< bit) ≠ 0
      · rw [if_pos hbit]
        set hart := base + BitVec.ofNat 32 bit
        rcases hfirst hbit with hlt | hidle
        · have hring : sbiSendIpi hart s = .ok () (ring hart.toNat s) :=
            sbiSendIpi_apply hm.platform hm.level (by rw [hm.harts]; exact hlt)
          obtain ⟨msip, hloop, hrung, hkept⟩ := ih (hm.ring hart.toNat) hrest
          refine ⟨msip, (bind_apply_ok hring).trans hloop, ?_, ?_⟩
          · rintro h hh (⟨-, rfl⟩ | hin)
            · by_cases hin : SelectedIn mask base bits hart.toNat
              · exact hrung _ hh hin
              · rw [hkept _ fun hboth => hin hboth.2]
                exact Function.update_self ..
            · exact hrung h hh hin
          · intro h hnot
            have hne : h ≠ hart.toNat := by
              rintro rfl
              exact hnot ⟨hlt, .inl ⟨hbit, rfl⟩⟩
            rw [hkept h fun hin => hnot ⟨hin.1, .inr hin.2⟩]
            exact Function.update_of_ne hne ..
        · have hidleStore : sbiSendIpi hart s = .ok () s :=
            store32_idle hm (doorbell_aligned hart) hidle
          obtain ⟨msip, hloop, hrung, hkept⟩ := ih hm hrest
          refine ⟨msip, (bind_apply_ok hidleStore).trans hloop, ?_, ?_⟩
          · rintro h hh (⟨-, rfl⟩ | hin)
            · exact absurd hidle (not_idle_of_lt hm.harts_le hh)
            · exact hrung h hh hin
          · intro h hnot
            exact hkept h fun hin => hnot ⟨hin.1, .inr hin.2⟩
      · rw [if_neg hbit]
        obtain ⟨msip, hloop, hrung, hkept⟩ := ih hm hrest
        refine ⟨msip, hloop, ?_, ?_⟩
        · rintro h hlt (⟨hset, -⟩ | hin)
          · exact absurd hset hbit
          · exact hrung h hlt hin
        · intro h hnot
          exact hkept h fun hin => hnot ⟨hin.1, .inr hin.2⟩

/-- Two selected indices that share a doorbell are one. -/
theorem eq_of_doorbell {bit bit' k : Nat} (hbit : bit < 32) (hbit' : bit' < 32) (hk : k < 64)
    (hdoorbell : (doorbell (base + BitVec.ofNat 32 bit)).toNat = 0x02000000 + 4 * k)
    (hselected : (base + BitVec.ofNat 32 bit').toNat = k) :
    (base + BitVec.ofNat 32 bit).toNat = k := by
  have hlt := base.isLt
  rw [toNat_doorbell, BitVec.toNat_add, BitVec.toNat_ofNat] at hdoorbell
  rw [BitVec.toNat_add, BitVec.toNat_ofNat] at hselected ⊢
  omega

/-- Nothing was touched, and only selected harts were rung. -/
structure Clean (mask base : Word) (t : Vm) : Prop where
  untouched : Untouched t
  silent : ∀ k, ¬Selected mask base k → t.clint.msip k ≠ 1

theorem clean_of_ring {k : Nat} (hselected : Selected mask base k)
    (h : Clean mask base (ring k s)) : Clean mask base s := by
  obtain ⟨⟨hram, hrom, htime, hcmp, hpriority, henable, hthreshold, hclaimed⟩, hsilent⟩ := h
  refine ⟨⟨hram, hrom, htime, hcmp, hpriority, henable, hthreshold, hclaimed⟩, ?_⟩
  intro j hj
  have hne : j ≠ k := by
    rintro rfl
    exact hj hselected
  have hkept := hsilent j hj
  simp only [ring, Function.update_of_ne hne] at hkept
  exact hkept

/-- A call that leaves the machine clean found it so, and was harmless. -/
theorem harmless_of_clean (bits : List Nat) (hbits : ∀ bit ∈ bits, bit < 32) (hm : Machine n s)
    (h : sendIpiLoop mask base bits s = .ok () t) (ht : Clean mask base t) :
    Clean mask base s ∧ Harmless n mask base bits := by
  induction bits generalizing s with
  | nil =>
      cases h
      exact ⟨ht, fun _ hmem => absurd hmem List.not_mem_nil⟩
  | cons bit bits ih =>
      have hrestBits : ∀ b ∈ bits, b < 32 := fun b hb => hbits b (List.mem_cons_of_mem _ hb)
      unfold sendIpiLoop at h
      by_cases hbit : mask &&& (1#32 <<< bit) ≠ 0
      · rw [if_pos hbit, bind_apply] at h
        cases hstore : sbiSendIpi (base + BitVec.ofNat 32 bit) s with
        | error e u =>
            rw [hstore] at h
            cases h
        | ok _ u =>
            rw [hstore] at h
            have hu := hm.store32 (doorbell_aligned _) hstore
            obtain ⟨hclean, hrest⟩ := ih hrestBits hu h
            rcases store32_cases hm (doorbell_aligned _) hstore hclean.untouched with
              ⟨k, hk, haddress, rfl⟩ | ⟨hidle, rfl⟩
            · have hselected : Selected mask base k := by
                by_contra hnot
                exact hclean.silent k hnot (Function.update_self ..)
              refine ⟨clean_of_ring hselected hclean, ?_⟩
              intro b hb hset
              rcases List.mem_cons.mp hb with rfl | hb
              · obtain ⟨bit', hbit', -, heq⟩ := hselected
                have hmax := hm.harts_le
                have hindex := eq_of_doorbell (hbits b List.mem_cons_self) hbit' (by omega)
                  haddress heq
                exact .inl (by omega)
              · exact hrest b hb hset
            · refine ⟨hclean, ?_⟩
              intro b hb hset
              rcases List.mem_cons.mp hb with rfl | hb
              · exact .inr hidle
              · exact hrest b hb hset
      · rw [if_neg hbit] at h
        obtain ⟨hclean, hrest⟩ := ih hrestBits hm h
        refine ⟨hclean, ?_⟩
        intro b hb hset
        rcases List.mem_cons.mp hb with rfl | hb
        · exact absurd hset hbit
        · exact hrest b hb hset

end Loop

/-! ## The call -/

section Call

variable {n : Nat} {mask base : Word} {frame : TrapFrame} {s t : Vm}

theorem sbiModernCall_ok (h : sendIpiLoop (frame REG_A0) (frame REG_A1) (List.range 32) s =
      .ok () t) :
    ∃ frame', sbiModernCall frame SBI_EXT_IPI 0 s = .ok frame' t := by
  have hresult : modernResult frame SBI_EXT_IPI 0 s = .ok (SBI_SUCCESS, 0) t :=
    bind_apply_ok h
  exact ⟨_, bind_apply_ok hresult⟩

theorem sendIpiLoop_of_sbiModernCall {frame' : TrapFrame}
    (h : sbiModernCall frame SBI_EXT_IPI 0 s = .ok frame' t) :
    sendIpiLoop (frame REG_A0) (frame REG_A1) (List.range 32) s = .ok () t := by
  have hresult : modernResult frame SBI_EXT_IPI 0 s =
      (sendIpiLoop (frame REG_A0) (frame REG_A1) (List.range 32) >>= fun _ =>
        pure (SBI_SUCCESS, 0)) s := rfl
  unfold sbiModernCall at h
  rw [bind_apply, hresult, bind_apply] at h
  cases hloop : sendIpiLoop (frame REG_A0) (frame REG_A1) (List.range 32) s with
  | error e u =>
      rw [hloop] at h
      cases h
  | ok _ u =>
      rw [hloop] at h
      cases h
      rfl

/-- A machine of `n` harts in which any store of a one leaves a mark. -/
def blankMachine (n : Nat) (hmax : n ≤ MAX_NR_HARTS) : Vm :=
  { virtualMachineInit (fun _ => 0) (fun _ => 0) with
    clint := { base := CLINT_BASE, nrHarts := n, mtime := 0, mtimecmp := fun _ => 0,
               msip := fun _ => 0, nrHarts_le := hmax }
    plic := { initialPlic with nrContexts := 2 * n, claimed := 2 } }

theorem machine_blankMachine (hpos : 0 < n) (hmax : n ≤ MAX_NR_HARTS) :
    Machine n (blankMachine n hmax) where
  platform := ⟨rfl, rfl, hpos⟩
  harts := rfl
  plicBase := rfl
  contexts := rfl
  level := rfl

theorem clean_of_onlyDoorbells {hmax : n ≤ MAX_NR_HARTS}
    (h : OnlyDoorbells mask base (blankMachine n hmax) t) : Clean mask base t where
  untouched := by
    constructor
    · rw [h.mainMem]
      intro i
      change (0 : Byte) ≠ 1
      decide
    · rw [h.bootrom]
      intro i
      change (0 : Byte) ≠ 1
      decide
    · rw [h.clint]
      rfl
    · rw [h.clint]
      intro id
      rfl
    all_goals rw [h.plic]
    · intro source
      change (0 : Word) ≠ 1
      decide
    · intro context
      change (0 : Word) ≠ 1
      decide
    · intro context
      change (0 : Word) ≠ 1
      decide
    · change (2 : Word).getLsbD 1 = true
      decide
  silent := by
    intro k hk
    rw [h.kept k fun hin => hk hin.2]
    change (0 : Word) ≠ 1
    decide

/-- A call only rings doorbells exactly when every index it selects is a hart of the machine or
the address of nothing. -/
theorem touchesOnlyDoorbells_iff (hpos : 0 < n) (hmax : n ≤ MAX_NR_HARTS) (mask base : Word) :
    TouchesOnlyDoorbells n mask base ↔ Harmless n mask base (List.range 32) := by
  constructor
  · intro h
    set frame : TrapFrame := fun reg => if reg = REG_A0 then mask else base
    obtain ⟨frame', t, hcall, honly⟩ :=
      h frame (blankMachine n hmax) rfl rfl (machine_blankMachine hpos hmax)
    have hloop : sendIpiLoop mask base (List.range 32) (blankMachine n hmax) = .ok () t :=
      sendIpiLoop_of_sbiModernCall hcall
    exact (harmless_of_clean _ (fun bit => List.mem_range.mp) (machine_blankMachine hpos hmax)
      hloop (clean_of_onlyDoorbells honly)).2
  · rintro hharmless frame s rfl rfl hm
    obtain ⟨msip, hloop, hrung, hkept⟩ := sendIpiLoop_rings (List.range 32) hm hharmless
    obtain ⟨frame', hcall⟩ := sbiModernCall_ok hloop
    refine ⟨frame', _, hcall, rfl, rfl, rfl, rfl, rfl, ?_, ?_⟩
    · intro h hlt hselected
      exact hrung h (hm.harts ▸ hlt) ((selectedIn_range h).mpr hselected)
    · intro h hnot
      apply hkept h
      rintro ⟨hlt, hin⟩
      exact hnot ⟨hm.harts.symm ▸ hlt, (selectedIn_range h).mp hin⟩

theorem touchesOnlyDoorbells_boot_hart :
    Harmless 1 1 0 (List.range 32) ∧ TouchesOnlyDoorbells 1 1 0 := by
  have honly : ∀ bit ∈ List.range 32, 1#32 &&& (1#32 <<< bit) ≠ 0 → bit = 0 := by decide
  have hharmless : Harmless 1 1 0 (List.range 32) := by
    intro bit hbit hset
    obtain rfl := honly bit hbit hset
    exact .inl (by decide)
  exact ⟨hharmless, (touchesOnlyDoorbells_iff (by decide) (by decide) 1 0).mpr hharmless⟩

/-- Index `0x1000` is no hart of the reset machine: the call arms the timer of hart 0. -/
theorem index_beyond_harts_reaches_mtimecmp :
    ¬∀ (n : Nat) (mask base : Word), 0 < n → n ≤ MAX_NR_HARTS →
      TouchesOnlyDoorbells n mask base := by
  intro h
  have hm : Machine 1 (virtualMachineInit (fun _ => 0) fun _ => 0) :=
    ⟨⟨rfl, rfl, by decide⟩, rfl, rfl, rfl, rfl⟩
  have hcmp : (finalState (sbiModernCall (fun reg => if reg = REG_A0 then 1 else 0x1000)
      SBI_EXT_IPI 0 (virtualMachineInit (fun _ => 0) fun _ => 0))).clint.mtimecmp 0 =
        0xffffffff00000001 := by
    decide +kernel
  obtain ⟨frame', t, hcall, honly⟩ := h 1 1 0x1000 (by decide) (by decide)
    (fun reg => if reg = REG_A0 then 1 else 0x1000) _ rfl rfl hm
  rw [hcall] at hcmp
  change t.clint.mtimecmp 0 = _ at hcmp
  rw [honly.clint] at hcmp
  change BitVec.allOnes 64 = 0xffffffff00000001 at hcmp
  exact absurd hcmp (by decide)

end Call

end Zelda.Proofs.IpiDoorbells
