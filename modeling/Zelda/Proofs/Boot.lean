import Zelda.Firmware.Boot
import Zelda.Proofs.CsrInstructions
import Zelda.Proofs.MachineTree
import Zelda.Proofs.Printk
import Zelda.Proofs.Sha1
import Zelda.Proofs.Sv32Walk
import Zelda.Proofs.TrapFrame
import Zelda.Proofs.TrapVector
/-!
# From reset to the supervisor

What the vmm leaves in the ROM, `fw_main` finds, prints and hands on.
-/

namespace Zelda.Proofs.Boot

open Zelda.Vmm
open Zelda.Firmware
open Zelda.Lib.Bytes
open Zelda.Lib.Effect
open Zelda.Proofs.DeviceTree
open Zelda.Proofs.MachineTree
open Zelda.Proofs.Printk
open Zelda.Proofs.SbiCalls
open Zelda.Proofs.TrapFrame

/-! ## The state the firmware works in -/

@[simp] theorem printed_hart (s : Vm) (text : List Byte) : (printed s text).hart = s.hart := by
  unfold printed
  split <;> rfl

@[simp] theorem printed_bootrom (s : Vm) (text : List Byte) :
    (printed s text).bootrom = s.bootrom := by
  unfold printed
  split <;> rfl

@[simp] theorem printed_mainMem (s : Vm) (text : List Byte) :
    (printed s text).mainMem = s.mainMem := by
  unfold printed
  split <;> rfl

@[simp] theorem printed_clint (s : Vm) (text : List Byte) : (printed s text).clint = s.clint := by
  unfold printed
  split <;> rfl

@[simp] theorem printed_hostOutput (s : Vm) (text : List Byte) :
    (printed s text).hostOutput = s.hostOutput ++ text := by
  unfold printed
  split
  case isTrue h => rw [h, List.append_nil]
  case isFalse => rfl

/-- `bytes` stand in the ROM from `offset` on. -/
def StandsAt (rom : HostMem) (offset : Nat) (bytes : List Byte) : Prop :=
  (List.range bytes.length).map (fun i => rom.bytes (offset + i)) = bytes

/-- The ROM has a device tree blob at `address`. -/
structure HasTree (s : Vm) (address : Word) (blob : List Byte) : Prop where
  headed : 8 ≤ blob.length
  inside : address.toNat + blob.length ≤ 0x400000
  bytes : StandsAt s.bootrom address.toNat blob
  magic : romWord s address.toNat = bigEndian32 FDT_MAGIC
  totalsize : littleEndian32 (romWord s (address.toNat + 4)) = BitVec.ofNat 32 blob.length

/-- The ROM has the block `info` where the firmware looks for it, and the tree the block names. -/
structure Informed (s : Vm) (info : ZeldaBootInfo) (blob : List Byte) : Prop where
  ready : Ready s
  size : s.bootrom.size = 0x400000
  field : ∀ field : BootInfoField, romWord s (ZELDA_BOOT_INFO_ADDRESS + field.offset) = info field
  tree : HasTree s (info .dtbAddress) blob

theorem Informed.onRom {s : Vm} {info : ZeldaBootInfo} {blob : List Byte}
    (hs : Informed s info blob) : OnRom s :=
  ⟨hs.ready.pmrOps, hs.ready.machine, hs.size⟩

/-- All that counts is the ROM. -/
theorem Informed.of_ready {s t : Vm} {info : ZeldaBootInfo} {blob : List Byte}
    (hs : Informed s info blob) (ht : Ready t) (hrom : t.bootrom = s.bootrom) :
    Informed t info blob := by
  have hword : ∀ offset, romWord t offset = romWord s offset := by
    intro offset
    unfold romWord
    rw [hrom]
  refine ⟨ht, ?_, fun field => (hword _).trans (hs.field field), ?_⟩
  · rw [hrom, hs.size]
  · refine ⟨hs.tree.headed, hs.tree.inside, ?_, (hword _).trans hs.tree.magic, ?_⟩
    · rw [hrom]
      exact hs.tree.bytes
    · rw [hword, hs.tree.totalsize]

theorem Informed.printed {s : Vm} {info : ZeldaBootInfo} {blob : List Byte}
    (hs : Informed s info blob) (text : List Byte) : Informed (printed s text) info blob :=
  hs.of_ready (hs.ready.printed text) (printed_bootrom s text)

theorem load32_rom {s : Vm} (hs : OnRom s) {address : Word}
    (haddress : address.toNat + 4 ≤ 0x400000) :
    load32 address s = .ok (romWord s address.toNat) s := by
  obtain ⟨value, hread, hvalue⟩ := vmread_romWord haddress hs
  unfold load32
  rw [bind_apply_ok hread, hvalue]
  rfl

theorem offset_le (field : BootInfoField) : field.offset ≤ 28 := by
  cases field <;> decide

theorem bootInfo_apply {s : Vm} {info : ZeldaBootInfo} {blob : List Byte}
    (hs : Informed s info blob) (field : BootInfoField) :
    bootInfo field s = .ok (info field) s := by
  have hoffset := offset_le field
  have haddress : (BitVec.ofNat 32 (ZELDA_BOOT_INFO_ADDRESS + field.offset)).toNat =
      ZELDA_BOOT_INFO_ADDRESS + field.offset := by
    rw [BitVec.toNat_ofNat]
    unfold ZELDA_BOOT_INFO_ADDRESS
    omega
  unfold bootInfo
  rw [load32_rom hs.onRom (by rw [haddress]; unfold ZELDA_BOOT_INFO_ADDRESS; omega), haddress,
    hs.field]

/-! ## The UART -/

/-- The machine with a UART that has no interrupt enabled. -/
def quieted (s : Vm) (uart : Uart) : Vm :=
  { s with uart := uart, plic := s.plic.setPending PLIC_IRQ_UART0 false }

@[simp] theorem quieted_quieted (s : Vm) (uart uart' : Uart) :
    quieted (quieted s uart) uart' = quieted s uart' :=
  congrArg (fun plic => { s with uart := uart', plic := plic }) (setPending_setPending _ _ _)

/-- Machine mode on the platform's memory map. -/
structure Unpaged (s : Vm) : Prop where
  pmrOps : s.pmrOps = platformRegions
  machine : s.hart.privilegeLevel = PRIVILEGE_LEVEL_MACHINE

theorem Unpaged.quieted {s : Vm} (hs : Unpaged s) (uart : Uart) : Unpaged (quieted s uart) :=
  ⟨hs.pmrOps, hs.machine⟩

theorem uartStore_quiet {s : Vm} (hs : Unpaged s) {register : Word} (hregister : register.toNat < 8)
    {value : Byte} {uart : Uart} (hreg : s.uart.writeReg register.toNat value = (none, uart))
    (hier : uart.ier = 0) : uartStore register value s = .ok () (quieted s uart) := by
  have haddress : (UART16550_BASE + register).toNat = 0x10000000 + register.toNat := by
    rw [BitVec.toNat_add]
    show (0x10000000 + register.toNat) % 2 ^ 32 = _
    omega
  have hwrite : vmwrite (UART16550_BASE + register) .b1 (value.setWidth 64) s =
      uartRegion.pmrWrite (UART16550_BASE + register) .b1 (value.setWidth 64) s := by
    refine vmwrite_machine hs.pmrOps hs.machine (by decide) ?_ ?_ _ _
    · rw [BitVec.le_def, haddress]
      show 0x10000000 ≤ _
      omega
    · rw [BitVec.lt_def, haddress]
      show _ < 0x10000100
      omega
  have hvalue : ((value.setWidth 64).setWidth 8 : Byte) = value := by
    rw [BitVec.setWidth_setWidth_of_le _ (by decide), BitVec.setWidth_eq]
  have hoffset : UART16550_BASE + register - UART_16550_BASE = register := by
    show (0x10000000 : Word) + register - 0x10000000 = register
    rw [BitVec.add_comm, BitVec.add_sub_cancel]
  have hpending : uart.interruptPending = false := by
    unfold Uart.interruptPending
    rw [hier]
    rfl
  unfold uartStore
  rw [hwrite]
  show uartMmioWrite (UART16550_BASE + register) .b1 (value.setWidth 64) s = _
  unfold uartMmioWrite
  rw [if_neg (by decide), bind_apply_ok (get_apply s), hvalue, hoffset, hreg]
  show EStateM.Result.ok ()
    { s with
      uart := uart
      hostOutput := s.hostOutput ++ []
      plic := s.plic.setPending PLIC_IRQ_UART0 uart.interruptPending } = _
  rw [hpending, List.append_nil]
  rfl

/-- The machine after `uart16550_init`. -/
def consoleReady (s : Vm) : Vm :=
  quieted s { s.uart with
    ier := 0, lcr := 0x03, dll := 0x03, dlm := 0x00, fcr := 0xc7, rxHead := 0, rxTail := 0 }

theorem uart16550Init_apply {s : Vm} (hs : Unpaged s) (hlcr : s.uart.lcr &&& UART_LCR_DLAB = 0) :
    uart16550Init s = .ok () (consoleReady s) := by
  let u1 : Uart := { s.uart with ier := 0 }
  let u2 : Uart := { u1 with lcr := 0x80 }
  let u3 : Uart := { u2 with dll := 0x03 }
  let u4 : Uart := { u3 with dlm := 0x00 }
  let u5 : Uart := { u4 with lcr := 0x03 }
  let u6 : Uart := { u5 with fcr := 0xc7, rxHead := 0, rxTail := 0 }
  have hlatch : (0x80 : Byte) &&& UART_LCR_DLAB ≠ 0 := by decide
  have h1 : s.uart.writeReg UART_REG_IER.toNat 0x00 = (none, u1) :=
    congrArg (Prod.mk none) (if_neg (not_not_intro hlcr))
  have h3 : u2.writeReg UART_REG_DLL.toNat 0x03 = (none, u3) := if_pos hlatch
  have h4 : u3.writeReg UART_REG_DLM.toNat 0x00 = (none, u4) :=
    congrArg (Prod.mk none) (if_pos hlatch)
  have h6 : u5.writeReg UART_REG_FCR.toNat 0xc7 = (none, u6) :=
    congrArg (Prod.mk none) (if_pos (by decide))
  have hready := hs.quieted
  unfold uart16550Init
  rw [bind_apply_ok (uartStore_quiet hs (by decide) h1 rfl),
    bind_apply_ok (uartStore_quiet (hready u1) (by decide) (rfl : _ = (none, u2)) rfl),
    quieted_quieted, bind_apply_ok (uartStore_quiet (hready u2) (by decide) h3 rfl),
    quieted_quieted, bind_apply_ok (uartStore_quiet (hready u3) (by decide) h4 rfl),
    quieted_quieted,
    bind_apply_ok (uartStore_quiet (hready u4) (by decide) (rfl : _ = (none, u5)) rfl),
    quieted_quieted, uartStore_quiet (hready u5) (by decide) h6 rfl, quieted_quieted]
  rfl

/-! ## Printing -/

theorem prints_read {α β : Type} {s : Vm} {m : VmM α} {f : α → VmM β} {a : α}
    {r : Option (List Byte × β)} (hm : m s = .ok a s) (hf : Prints s (f a) r) :
    Prints s (m >>= f) r := by
  have hrun : (m >>= f) s = f a s := bind_apply_ok hm
  cases r with
  | none =>
      obtain ⟨text, htext⟩ := hf
      exact ⟨text, hrun.trans htext⟩
  | some result => exact hrun.trans hf

section Steps

variable {s : Vm} {info : ZeldaBootInfo} {blob : List Byte} (hs : Informed s info blob)
include hs

/-- Reading the block goes before whatever follows. -/
theorem prints_bootInfo {β : Type} (field : BootInfoField) {f : Word → VmM β}
    {r : Option (List Byte × β)} (hf : Prints s (f (info field)) r) :
    Prints s (bootInfo field >>= f) r :=
  prints_read (bootInfo_apply hs field) hf

/-- A message goes before whatever the informed firmware prints next. -/
theorem prints_message {β : Type} {fmt : String} {args : List PrintkArg} {f : Unit → VmM β}
    {text more : List Byte} {b : β} (htext : rendered (ascii fmt.toList) args = some text)
    (hf : ∀ t, Informed t info blob → Prints t (f ()) (some (more, b))) :
    Prints s (printk fmt args >>= f) (some (message text ++ more, b)) :=
  (bind_apply_ok (printk_ready hs.ready htext)).trans
    ((hf _ (hs.printed _)).trans (congrArg _ (printed_printed s _ _)))

/-- The last message. -/
theorem prints_last {fmt : String} {args : List PrintkArg} {text : List Byte}
    (htext : rendered (ascii fmt.toList) args = some text) :
    Prints s (printk fmt args) (some (message text, ())) :=
  printk_ready hs.ready htext

end Steps

theorem rendered_harts {value : Word} (hvalue : value ≠ 0x80000000) :
    rendered (ascii "  platform    : rv32ima, %d hart(s)\r\n".toList) [.word value] =
      some (ascii "  platform    : rv32ima, ".toList ++
        (decimalText value ++ ascii " hart(s)\r\n".toList)) := by
  have hpieces : ascii "  platform    : rv32ima, %d hart(s)\r\n".toList =
      ascii "  platform    : rv32ima, ".toList ++
        asciiByte '%' :: asciiByte 'd' :: ascii " hart(s)\r\n".toList := rfl
  rw [hpieces, rendered_plain (by decide), rendered_decimal hvalue, rendered_text _ (by decide)]
  rfl

theorem shifted_ne (value : Word) : value >>> 20 ≠ 0x80000000 := by
  intro h
  have hshifted := congrArg BitVec.toNat h
  rw [BitVec.toNat_ushiftRight, Nat.shiftRight_eq_div_pow] at hshifted
  have := value.isLt
  have hright : (0x80000000 : Word).toNat = 2 ^ 31 := rfl
  omega

theorem rendered_memory (start size : Word) :
    rendered (ascii "  memory      : 0x%x + %d MiB\r\n".toList) [.word start, .word (size >>> 20)] =
      some (ascii "  memory      : 0x".toList ++ (hexText true start ++
        (ascii " + ".toList ++ (decimalText (size >>> 20) ++ ascii " MiB\r\n".toList)))) := by
  have hpieces : ascii "  memory      : 0x%x + %d MiB\r\n".toList =
      ascii "  memory      : 0x".toList ++ asciiByte '%' :: asciiByte 'x' ::
        (ascii " + ".toList ++ asciiByte '%' :: asciiByte 'd' :: ascii " MiB\r\n".toList) := rfl
  rw [hpieces, rendered_plain (by decide), rendered_hex, rendered_plain (by decide),
    rendered_decimal (shifted_ne size), rendered_text _ (by decide)]
  rfl

/-- A text with one address in it. -/
theorem rendered_address {fmt before after : List Byte} (value : Word)
    (hpieces : fmt = before ++ asciiByte '%' :: asciiByte 'x' :: after)
    (hbefore : asciiByte '%' ∉ before) (hafter : asciiByte '%' ∉ after) :
    rendered fmt [.word value] = some (before ++ (hexText true value ++ after)) := by
  rw [hpieces, rendered_plain hbefore, rendered_hex, rendered_text _ hafter]
  rfl

theorem rendered_initrd (start last : Word) :
    rendered (ascii "  initrd      : 0x%x - 0x%x\r\n".toList) [.word start, .word last] =
      some (ascii "  initrd      : 0x".toList ++ (hexText true start ++
        (ascii " - 0x".toList ++ (hexText true last ++ ascii "\r\n".toList)))) := by
  have hpieces : ascii "  initrd      : 0x%x - 0x%x\r\n".toList =
      ascii "  initrd      : 0x".toList ++ asciiByte '%' :: asciiByte 'x' ::
        (ascii " - 0x".toList ++ asciiByte '%' :: asciiByte 'x' :: ascii "\r\n".toList) := rfl
  rw [hpieces, rendered_plain (by decide), rendered_hex, rendered_plain (by decide), rendered_hex,
    rendered_text _ (by decide)]
  rfl

/-- The line about the initial ramdisk, if there is one. -/
def initrdText (info : ZeldaBootInfo) : List Byte :=
  if info .initrdStart < info .initrdEnd then
    message (ascii "  initrd      : 0x".toList ++ (hexText true (info .initrdStart) ++
      (ascii " - 0x".toList ++ (hexText true (info .initrdEnd) ++ ascii "\r\n".toList))))
  else []

/-- What `banner` prints. -/
def bannerText (info : ZeldaBootInfo) : List Byte :=
  message (ascii "\r\n".toList) ++
    (message (ascii "zelda machine mode firmware\r\n".toList) ++
    (message (ascii "  platform    : rv32ima, ".toList ++
      (decimalText (info .nrHarts) ++ ascii " hart(s)\r\n".toList)) ++
    (message (ascii "  memory      : 0x".toList ++ (hexText true (info .memoryStart) ++
      (ascii " + ".toList ++
        (decimalText (info .memorySize >>> 20) ++ ascii " MiB\r\n".toList)))) ++
    (message (ascii "  device tree : 0x".toList ++
      (hexText true (info .dtbAddress) ++ ascii "\r\n".toList)) ++
    (message (ascii "  kernel      : 0x".toList ++
      (hexText true (info .kernelEntry) ++ ascii "\r\n".toList)) ++
    (initrdText info ++
    (message (ascii "  sbi         : v0.3, extensions base/time/ipi/rfence/srst\r\n".toList) ++
    message (ascii "\r\n".toList))))))))

theorem prints_banner {s : Vm} {info : ZeldaBootInfo} {blob : List Byte} (hs : Informed s info blob)
    (hharts : info .nrHarts ≠ 0x80000000) : Prints s banner (some (bannerText info, ())) := by
  have hrest : ∀ t, Informed t info blob → Prints t (do
      printk "  sbi         : v0.3, extensions base/time/ipi/rfence/srst\r\n" []
      printk "\r\n" [])
      (some (message
        (ascii "  sbi         : v0.3, extensions base/time/ipi/rfence/srst\r\n".toList) ++
        message (ascii "\r\n".toList), ())) := fun t ht =>
    prints_message ht (rendered_text _ (by decide) _) fun u hu =>
      prints_last hu (rendered_text _ (by decide) _)
  unfold banner bannerText
  refine prints_message hs (rendered_text _ (by decide) _) fun s hs => ?_
  refine prints_message hs (rendered_text _ (by decide) _) fun s hs => ?_
  refine prints_bootInfo hs _ (prints_message hs (rendered_harts hharts) fun s hs => ?_)
  refine prints_bootInfo hs _ (prints_bootInfo hs _
    (prints_message hs (rendered_memory _ _) fun s hs => ?_))
  refine prints_bootInfo hs _ (prints_message hs
    (rendered_address _ rfl (by decide) (by decide)) fun s hs => ?_)
  refine prints_bootInfo hs _ (prints_message hs
    (rendered_address _ rfl (by decide) (by decide)) fun s hs => ?_)
  refine prints_bootInfo hs _ (prints_bootInfo hs _ ?_)
  unfold initrdText
  by_cases hinitrd : info .initrdStart < info .initrdEnd
  · simp only [if_pos hinitrd]
    exact prints_bootInfo hs _ (prints_bootInfo hs _
      (prints_message hs (rendered_initrd _ _) fun t ht => hrest t ht))
  · simp only [if_neg hinitrd, List.nil_append]
    exact hrest s hs

/-! ## The device tree -/

theorem vmread_romByte {s : Vm} (hs : OnRom s) {address : Word}
    (haddress : address.toNat + AccessSize.b1.bytes ≤ 0x400000) :
    ∃ value : DWord, vmread address .b1 s = .ok value s ∧
      value.setWidth 8 = s.bootrom.bytes address.toNat := by
  refine ⟨_, vmread_rom haddress hs, ?_⟩
  apply BitVec.eq_of_toNat_eq
  have hbyte := (s.bootrom.bytes address.toNat).isLt
  rw [BitVec.toNat_setWidth, BitVec.toNat_ofNat]
  show ((s.bootrom.bytes address.toNat).toNat + 256 * 0) % 2 ^ 64 % 2 ^ 8 = _
  omega

theorem loadBlob_rom {s : Vm} (hs : OnRom s) (n : Nat) {address : Word}
    (haddress : address.toNat + n ≤ 0x400000) :
    loadBlob address n s =
      .ok ((List.range n).map fun i => s.bootrom.bytes (address.toNat + i)) s := by
  induction n generalizing address with
  | zero => rfl
  | succ n ih =>
      have hnext : (address + 1).toNat = address.toNat + 1 := by
        rw [BitVec.toNat_add]
        show (address.toNat + 1) % 2 ^ 32 = _
        omega
      have hfirst : address.toNat + AccessSize.b1.bytes ≤ 0x400000 := by
        show address.toNat + 1 ≤ 0x400000
        omega
      obtain ⟨value, hread, hvalue⟩ := vmread_romByte hs hfirst
      unfold loadBlob
      rw [bind_apply_ok hread, bind_apply_ok (ih (by omega)), hvalue, List.range_succ_eq_map,
        List.map_cons, List.map_map, hnext]
      refine congrArg (fun rest => EStateM.Result.ok (_ :: rest) s) (List.map_congr_left ?_)
      intro i _
      show _ = s.bootrom.bytes (address.toNat + (i + 1))
      rw [Nat.add_right_comm, Nat.add_assoc]

/-- The hexadecimal digits of some bytes. -/
def hexPairs (bytes : List Byte) : List Byte :=
  bytes.flatMap fun value => [hexDigit true (value.toNat / 16), hexDigit true (value.toNat % 16)]

theorem hexResultBytes_digest (message : List Byte) :
    hexResultBytes (Lib.Sha1.digest message ++ [0]) = hexPairs (Lib.Sha1.digest message) := by
  have htake : (Lib.Sha1.digest message ++ [0]).take 20 = Lib.Sha1.digest message := rfl
  unfold hexResultBytes hexPairs
  rw [htake]
  refine congrArg List.flatten (List.map_congr_left fun value _ => ?_)
  have hhigh : ((value >>> 4).setWidth 4).toNat = value.toNat / 16 := by
    have := value.isLt
    rw [BitVec.toNat_setWidth, BitVec.toNat_ushiftRight, Nat.shiftRight_eq_div_pow]
    omega
  have hlow : (value.setWidth 4).toNat = value.toNat % 16 := BitVec.toNat_setWidth ..
  rw [hhigh, hlow]
  rfl

/-- The lines about the device tree. -/
def dtbText (address : Word) (blob : List Byte) : List Byte :=
  message (ascii "device tree detected at 0x".toList ++
      (hexText true address ++ ascii "\n".toList)) ++
    (message (ascii "device tree blob size: ".toList ++
      (decimalText (BitVec.ofNat 32 blob.length) ++ ascii " bytes\n".toList)) ++
    message (ascii "device tree blob sha1 checksum: ".toList ++
      (hexPairs (Lib.Sha1.digest blob) ++ ascii "\n".toList)))

theorem rendered_size {value : Word} (hvalue : value ≠ 0x80000000) :
    rendered (ascii "device tree blob size: %d bytes\n".toList) [.word value] =
      some (ascii "device tree blob size: ".toList ++
        (decimalText value ++ ascii " bytes\n".toList)) := by
  have hpieces : ascii "device tree blob size: %d bytes\n".toList =
      ascii "device tree blob size: ".toList ++
        asciiByte '%' :: asciiByte 'd' :: ascii " bytes\n".toList := rfl
  rw [hpieces, rendered_plain (by decide), rendered_decimal hvalue, rendered_text _ (by decide)]
  rfl

theorem rendered_checksum (text : CString) :
    rendered (ascii "device tree blob sha1 checksum: %s\n".toList) [.string text] =
      some (ascii "device tree blob sha1 checksum: ".toList ++
        (text.bytes ++ ascii "\n".toList)) := by
  have hpieces : ascii "device tree blob sha1 checksum: %s\n".toList =
      ascii "device tree blob sha1 checksum: ".toList ++
        asciiByte '%' :: asciiByte 's' :: ascii "\n".toList := rfl
  rw [hpieces, rendered_plain (by decide), rendered_string, rendered_text _ (by decide)]
  rfl

theorem prints_validateDtb {s : Vm} {info : ZeldaBootInfo} {blob : List Byte}
    (hs : Informed s info blob) {ctx : Sha1Ctx} (hctx : ctx.buffer.length = 64) :
    Prints s (validateDtb ctx (info .dtbAddress)) (some (dtbText (info .dtbAddress) blob, ())) := by
  have hinside := hs.tree.inside
  have hheaded := hs.tree.headed
  have hlength : (BitVec.ofNat 32 blob.length).toNat = blob.length := by
    rw [BitVec.toNat_ofNat]
    omega
  have hsize : BitVec.ofNat 32 blob.length ≠ 0x80000000 := by
    intro h
    rw [← BitVec.toNat_inj, hlength] at h
    have hright : (0x80000000 : Word).toNat = 2 ^ 31 := rfl
    omega
  have hsecond : (info .dtbAddress + 4).toNat = (info .dtbAddress).toNat + 4 := by
    rw [BitVec.toNat_add]
    show ((info .dtbAddress).toNat + 4) % 2 ^ 32 = _
    omega
  unfold validateDtb dtbText
  refine prints_read (load32_rom hs.onRom (by omega)) ?_
  rw [if_pos hs.tree.magic]
  refine prints_message hs (rendered_address _ rfl (by decide) (by decide)) fun s hs => ?_
  refine prints_read (load32_rom hs.onRom (by omega)) ?_
  rw [hsecond, hs.tree.totalsize]
  refine prints_message hs (rendered_size hsize) fun s hs => ?_
  rw [hlength]
  refine prints_read (loadBlob_rom hs.onRom blob.length hinside) ?_
  rw [hs.tree.bytes, Sha1.sha1_eq_digest ctx hctx blob (by omega), ← hexResultBytes_digest]
  exact prints_last hs (rendered_checksum _)

/-! ## Entering the supervisor -/

/-- `%hi` and `%lo` of an address make it up. -/
theorem hi_add_lo (sym : Word) :
    ((sym + 0x800) &&& 0xfffff000) + (sym.setWidth 12).signExtend 32 = sym := by
  have hlow := (sym.setWidth 12).isLt
  have hsym := sym.isLt
  have hlowNat : (sym.setWidth 12).toNat = sym.toNat % 2 ^ 12 := BitVec.toNat_setWidth ..
  have hbias : (0x800 : Word).toNat = 0x800 := rfl
  have hhigh : ((sym + 0x800) &&& 0xfffff000).toNat =
      (sym.toNat + 0x800) % 2 ^ 32 / 2 ^ 12 * 2 ^ 12 := by
    rw [show (0xfffff000 : Word) = PAGE_MASK_4K from rfl, Sv32Walk.toNat_and_mask4K,
      BitVec.toNat_add, hbias]
  apply BitVec.eq_of_toNat_eq
  rw [BitVec.toNat_add, hhigh, BitVec.toNat_signExtend, BitVec.toNat_setWidth_of_le (by decide),
    BitVec.msb_eq_decide, hlowNat]
  by_cases hneg : 2 ^ 11 ≤ sym.toNat % 2 ^ 12
  · rw [if_pos (decide_eq_true hneg)]
    omega
  · rw [if_neg (by simpa using hneg)]
    omega

theorem loadAddress_apply (reg : RegIndex) (sym : Word) (s : Vm) :
    loadAddress reg sym s = .ok () { s with hart := s.hart.setReg reg sym } := by
  show EStateM.Result.ok () { s with
    hart := (s.hart.setReg reg ((sym + 0x800) &&& 0xfffff000)).setReg reg
      (Function.update s.hart.registers reg ((sym + 0x800) &&& 0xfffff000) reg +
        (sym.setWidth 12).signExtend 32) } = _
  rw [Function.update_self, hi_add_lo]
  simp only [Hart.setReg, Function.update_idem]

theorem run_csrr_mhartid (rd : RegIndex) (s : Vm) :
    (EntryInstr.csrr rd CSR_MHARTID).run s =
      .ok () { s with hart := s.hart.setReg rd (BitVec.ofNat 32 s.hart.hartId) } := by
  obtain ⟨hopcode, hdec⟩ := Decode.decode_iType 0 rd 2 RISCV_OPCODE_SUPERVISOR_LEVEL CSR_MHARTID
  unfold EntryInstr.run riscvGenericCsrCallback EntryInstr.csrWord
  simp only [hopcode, hdec]
  show EStateM.Result.ok () { s with
    hart := s.hart.setReg rd (BitVec.ofNat 32 s.hart.hartId &&& BitVec.allOnes 32) } = _
  rw [BitVec.and_allOnes]

/-- The stack top of a hart. -/
def hartStackTop (image : FirmwareImage) (hartId : Nat) : Word :=
  image.fwStackTop - BitVec.ofNat 32 hartId <<< FW_STACK_SHIFT

/-- The hart just before the `mret` of `enter_supervisor`. -/
def departing (image : FirmwareImage) (registers : RegIndex → Word) (entry : Word) (h : Hart) :
    Hart :=
  { h with
    registers := registers
    csrBlob := Function.update (Function.update h.csrBlob CSR_ADDRESS_MEPC entry)
      CSR_ADDRESS_MSCRATCH (hartStackTop image h.hartId) }

theorem modifyHart_apply (f : Hart → Hart) (s : Vm) :
    modifyHart f s = .ok () { s with hart := f s.hart } := rfl

/-- What `enter_supervisor` leaves in the registers. -/
def passed (image : FirmwareImage) (hartid dtb entry : Word) (h : Hart) : RegIndex → Word :=
  Function.update (Function.update (Function.update (Function.update (Function.update
    h.registers REG_A0 hartid) REG_A1 dtb) REG_A2 entry)
    REG_T1 (BitVec.ofNat 32 h.hartId <<< FW_STACK_SHIFT)) REG_T0 (hartStackTop image h.hartId)

theorem run_csrw_mepc (rs : RegIndex) (s : Vm) :
    (EntryInstr.csrw CSR_ADDRESS_MEPC rs).run s = .ok ()
      { s with hart := s.hart.setCsrBlob CSR_ADDRESS_MEPC (s.hart.registers rs) } := by
  have hmepc : csrEntryAt CSR_ADDRESS_MEPC = some mepcCsrEntry := rfl
  rw [run_csrw_entry hmepc rfl]
  show EStateM.Result.ok () { s with
    hart := s.hart.setCsrBlob CSR_ADDRESS_MEPC (s.hart.registers rs &&& WPRI_MASK_ALL) } = _
  rw [and_wpriMaskAll]

theorem enterSupervisor_departing (image : FirmwareImage) (hartid dtb entry : Word) (s : Vm) :
    enterSupervisor image hartid dtb entry s = EntryInstr.mret.run { s with
      hart := departing image (passed image hartid dtb entry s.hart) entry s.hart } := by
  unfold enterSupervisor
  rw [bind_apply_ok (modifyHart_apply _ _), bind_apply_ok (modifyHart_apply _ _),
    bind_apply_ok (modifyHart_apply _ _), bind_apply_ok (run_csrw_mepc REG_A2 _),
    bind_apply_ok (loadAddress_apply REG_T0 image.fwStackTop _),
    bind_apply_ok (run_csrr_mhartid REG_T1 _), bind_apply_ok (modifyHart_apply _ _),
    bind_apply_ok (modifyHart_apply _ _), bind_apply_ok (run_csrw _ REG_T0)]
  refine congrArg (fun h => EntryInstr.mret.run { s with hart := h }) ?_
  have hne : REG_T0 ≠ REG_T1 := by decide
  simp only [departing, passed, hartStackTop, Hart.setReg, Hart.setCsrBlob, Function.update_self,
    Function.update_idem, Function.update_of_ne hne.symm, Function.update_comm hne]

/-- `enter_supervisor` drops to the supervisor's entry with its two arguments in place. -/
theorem enterSupervisor_apply {s : Vm} (hs : Unpaged s)
    (hmpp : s.hart.status.mpp = PRIVILEGE_LEVEL_SUPERVISOR) (image : FirmwareImage)
    (hartid dtb entry : Word) :
    enterSupervisor image hartid dtb entry s = .ok () { s with
      hart := (departing image (passed image hartid dtb entry s.hart) entry
        s.hart).returnFromMmode } := by
  rw [enterSupervisor_departing]
  exact TrapNesting.mretCallback_apply hs.machine (.inr (.inl hmpp))

/-! ## Delegation -/

/-- The status `fw_main` leaves: `mret` is to drop to the supervisor. -/
def supervisorStatus (status : Status) : Status :=
  { status with uie := false, upie := false, mpie := true, mpp := PRIVILEGE_LEVEL_SUPERVISOR }

theorem statusOf_mstatusWord (status : Status) :
    CsrInstructions.statusOf
        (((CsrViews.mstatusWord status &&& 0x19aa) &&& ~~~MSTATUS_MPP_MASK |||
          PRIVILEGE_SUPERVISOR <<< MSTATUS_MPP_SHIFT ||| MSTATUS_MPIE) &&& 0x19aa) =
      supervisorStatus status := by
  obtain ⟨uie, sie, mie, upie, spie, mpie, spp, mpp⟩ := status
  revert uie sie mie upie spie mpie spp mpp
  decide +kernel

theorem readCsr_mstatus (s : Vm) :
    readCsr CSR_ADDRESS_MSTATUS s = .ok (CsrViews.mstatusWord s.hart.status &&& 0x19aa) s := by
  have hmstatus : csrEntryAt CSR_ADDRESS_MSTATUS = some mstatusCsrEntry := rfl
  unfold readCsr
  rw [bind_apply_ok (csrAt_apply hmstatus s)]
  rfl

/-- The machine once `fw_main` has set up the machine level. -/
def configured (image : FirmwareImage) (s : Vm) : Vm :=
  { s with
    hart := { s.hart with
      csrBlob := Function.update (Function.update s.hart.csrBlob CSR_ADDRESS_MTVEC
        (image.fwTrapVector &&& 0xfffffffd)) CSR_ADDRESS_MEDELEG MEDELEG_TO_SUPERVISOR
      ienable := MIE_MSIE
      ipending := pendingWrite s.hart.ipending 0
      idelegation := MIDELEG_TO_SUPERVISOR
      status := supervisorStatus s.hart.status } }

/-- Everything between the device tree and the last message, in front of `rest`. -/
theorem configured_apply (image : FirmwareImage) (rest : VmM Unit) (s : Vm) :
    (do
      sbiInit image.fwTrapVector
      writeCsr CSR_ADDRESS_MEDELEG MEDELEG_TO_SUPERVISOR
      writeCsr CSR_ADDRESS_MIDELEG MIDELEG_TO_SUPERVISOR
      let mstatus ← readCsr CSR_ADDRESS_MSTATUS
      let mstatus := mstatus &&& ~~~MSTATUS_MPP_MASK
      let mstatus := mstatus ||| PRIVILEGE_SUPERVISOR <<< MSTATUS_MPP_SHIFT
      let mstatus := mstatus ||| MSTATUS_MPIE
      writeCsr CSR_ADDRESS_MSTATUS mstatus
      rest) s = rest (configured image s) := by
  have hmedeleg : csrEntryAt CSR_ADDRESS_MEDELEG = some medelegCsrEntry := rfl
  have hmideleg : csrEntryAt CSR_ADDRESS_MIDELEG = some midelegCsrEntry := rfl
  have hmstatus : csrEntryAt CSR_ADDRESS_MSTATUS = some mstatusCsrEntry := rfl
  have hstatus := statusOf_mstatusWord s.hart.status
  rw [bind_apply_ok (sbiInit_apply _ s), bind_apply_ok (writeCsr_apply hmedeleg rfl _ _),
    bind_apply_ok (writeCsr_apply hmideleg rfl _ _), bind_apply_ok (readCsr_mstatus _),
    bind_apply_ok (writeCsr_apply hmstatus rfl _ _)]
  refine congrArg rest ?_
  unfold configured
  rw [← hstatus]
  rfl

/-! ## The whole way -/

theorem Informed.consoleReady {s : Vm} {info : ZeldaBootInfo} {blob : List Byte}
    (hs : Informed s info blob) : Informed (consoleReady s) info blob :=
  hs.of_ready ⟨hs.ready.pmrOps, hs.ready.machine, (by decide : (0x03 : Byte) &&& UART_LCR_DLAB = 0)⟩
    rfl

theorem Informed.configured {s : Vm} {info : ZeldaBootInfo} {blob : List Byte}
    (hs : Informed s info blob) (image : FirmwareImage) :
    Informed (configured image s) info blob :=
  hs.of_ready ⟨hs.ready.pmrOps, hs.ready.machine, hs.ready.lcr⟩ rfl

/-- The last message of `fw_main`. -/
def enteringText (entry : Word) : List Byte :=
  message (ascii "[firmware] entering supervisor at 0x".toList ++
    (hexText true entry ++ ascii "\r\n\r\n".toList))

/-- What the supervisor finds when the firmware hands over the machine `s`. -/
structure HandedOver (image : FirmwareImage) (info : ZeldaBootInfo) (blob : List Byte)
    (s t : Vm) : Prop where
  pc : t.hart.pc = info .kernelEntry
  privilegeLevel : t.hart.privilegeLevel = PRIVILEGE_LEVEL_SUPERVISOR
  hartid : t.hart.registers REG_A0 = BitVec.ofNat 32 s.hart.hartId
  dtb : t.hart.registers REG_A1 = info .dtbAddress
  status : t.hart.status = { s.hart.status with
    uie := false, upie := false, mie := true, mpie := true, mpp := PRIVILEGE_LEVEL_USER }
  medeleg : t.hart.csrBlob CSR_ADDRESS_MEDELEG = MEDELEG_TO_SUPERVISOR
  mideleg : t.hart.idelegation = MIDELEG_TO_SUPERVISOR
  enabled : t.hart.ienable = MIE_MSIE
  pending : t.hart.ipending = s.hart.ipending &&& 0x888
  mtvec : t.hart.csrBlob CSR_ADDRESS_MTVEC = image.fwTrapVector &&& 0xfffffffd
  mscratch : t.hart.csrBlob CSR_ADDRESS_MSCRATCH = hartStackTop image s.hart.hartId
  satp : t.hart.csrBlob CSR_ADDRESS_SATP = s.hart.csrBlob CSR_ADDRESS_SATP
  console : t.hostOutput = s.hostOutput ++
    (bannerText info ++ (dtbText (info .dtbAddress) blob ++ enteringText (info .kernelEntry)))
  mainMem : t.mainMem = s.mainMem
  clint : t.clint = s.clint

/-- The machine when `fw_main` calls `enter_supervisor`. -/
def handing (image : FirmwareImage) (info : ZeldaBootInfo) (blob : List Byte) (s : Vm) : Vm :=
  printed (configured image (printed (consoleReady s)
    (bannerText info ++ dtbText (info .dtbAddress) blob))) (enteringText (info .kernelEntry))

theorem fwMain_apply {s : Vm} {info : ZeldaBootInfo} {blob : List Byte} (hs : Informed s info blob)
    (hmagic : info .magic = ZELDA_BOOT_INFO_MAGIC) (hharts : info .nrHarts ≠ 0x80000000)
    {image : FirmwareImage} (hctx : image.sha1Ctx.buffer.length = 64) :
    fwMain image s = enterSupervisor image (BitVec.ofNat 32 s.hart.hartId) (info .dtbAddress)
      (info .kernelEntry) (handing image info blob s) := by
  let s1 := Boot.consoleReady s
  let s2 := printed s1 (bannerText info)
  let s3 := printed s1 (bannerText info ++ dtbText (info .dtbAddress) blob)
  let s4 := Boot.configured image s3
  have h1 : Informed s1 info blob := hs.consoleReady
  have h2 : Informed s2 info blob := h1.printed _
  have h4 : Informed s4 info blob := (h1.printed _).configured image
  have h5 : Informed (handing image info blob s) info blob := h4.printed _
  have hbanner : banner s1 = .ok () s2 := prints_banner h1 hharts
  have hdtb : validateDtb image.sha1Ctx (info .dtbAddress) s2 = .ok () s3 :=
    (prints_validateDtb h2 hctx).trans (congrArg _ (printed_printed s1 _ _))
  have hentering : printk "[firmware] entering supervisor at 0x%x\r\n\r\n"
      [.word (info .kernelEntry)] s4 = .ok () (handing image info blob s) :=
    printk_ready h4.ready (rendered_address _ rfl (by decide) (by decide))
  have hhartid : readCsr CSR_MHARTID (handing image info blob s) =
      .ok (BitVec.ofNat 32 s.hart.hartId) (handing image info blob s) := by
    have hsame : (handing image info blob s).hart.hartId = s.hart.hartId := by
      unfold handing configured
      rw [printed_hart, printed_hart]
      rfl
    rw [← hsame]
    exact currentHartid_apply _
  unfold fwMain
  rw [bind_apply_ok (uart16550Init_apply ⟨hs.ready.pmrOps, hs.ready.machine⟩ hs.ready.lcr),
    bind_apply_ok (bootInfo_apply h1 .magic), if_neg (not_not_intro hmagic),
    bind_apply_ok hbanner, bind_apply_ok (bootInfo_apply h2 .dtbAddress), bind_apply_ok hdtb,
    configured_apply, bind_apply_ok (bootInfo_apply h4 .kernelEntry), bind_apply_ok hentering,
    bind_apply_ok hhartid, bind_apply_ok (bootInfo_apply h5 .dtbAddress),
    bind_apply_ok (bootInfo_apply h5 .kernelEntry)]

/-- `fw_main` enters the supervisor. -/
theorem fwMain_spec {s : Vm} {info : ZeldaBootInfo} {blob : List Byte} (hs : Informed s info blob)
    (hmagic : info .magic = ZELDA_BOOT_INFO_MAGIC) (hharts : info .nrHarts ≠ 0x80000000)
    {image : FirmwareImage} (hctx : image.sha1Ctx.buffer.length = 64) :
    ∃ t, fwMain image s = .ok () t ∧ HandedOver image info blob s t := by
  let u := handing image info blob s
  have hu : Informed u info blob :=
    ((hs.consoleReady.printed _).configured image).printed _
  have hhart : u.hart = (Boot.configured image s).hart := by
    show (printed _ _).hart = _
    rw [printed_hart]
    unfold Boot.configured
    rw [printed_hart]
    rfl
  have hmpp : u.hart.status.mpp = PRIVILEGE_LEVEL_SUPERVISOR := by
    rw [hhart]
    rfl
  have hrun := enterSupervisor_apply ⟨hu.ready.pmrOps, hu.ready.machine⟩ hmpp image
    (BitVec.ofNat 32 s.hart.hartId) (info .dtbAddress) (info .kernelEntry)
  refine ⟨_, (fwMain_apply hs hmagic hharts hctx).trans hrun, ?_⟩
  obtain ⟨pcMappings, translationCachePtr, hreturn⟩ := TrapVector.returnFromMmode_eq
    (departing image (passed image (BitVec.ofNat 32 s.hart.hartId) (info .dtbAddress)
      (info .kernelEntry) u.hart) (info .kernelEntry) u.hart)
  rw [hreturn, hhart]
  exact
    { pc := rfl
      privilegeLevel := rfl
      hartid := rfl
      dtb := rfl
      status := rfl
      medeleg := rfl
      mideleg := rfl
      enabled := rfl
      pending := BitVec.zero_or
      mtvec := rfl
      mscratch := rfl
      satp := rfl
      console := by
        show u.hostOutput = _
        simp only [u, handing, configured, consoleReady, quieted, printed_hostOutput,
          List.append_assoc]
      mainMem := by
        show u.mainMem = _
        simp only [u, handing, configured, consoleReady, quieted, printed_mainMem]
      clint := by
        show u.clint = _
        simp only [u, handing, configured, consoleReady, quieted, printed_clint] }

/-! ## What the vmm has left in the ROM -/

theorem romWord_bytes (s : Vm) (offset : Nat) :
    romWord s offset = s.bootrom.bytes (offset + 3) ++ s.bootrom.bytes (offset + 2) ++
      s.bootrom.bytes (offset + 1) ++ s.bootrom.bytes offset := by
  have hbyte : ∀ i < 4,
      (romWord s offset).extractLsb' (8 * i) 8 = s.bootrom.bytes (offset + i) := by
    intro i hi
    have h0 := (s.bootrom.bytes offset).isLt
    have h1 := (s.bootrom.bytes (offset + 1)).isLt
    have h2 := (s.bootrom.bytes (offset + 2)).isLt
    have h3 := (s.bootrom.bytes (offset + 3)).isLt
    apply BitVec.eq_of_toNat_eq
    rw [BitVec.extractLsb'_toNat, romWord, BitVec.toNat_ofNat, Nat.shiftRight_eq_div_pow]
    simp only [loadBytes, Nat.add_assoc, Nat.reduceAdd]
    interval_cases i
    case «0» =>
      show _ = (s.bootrom.bytes offset).toNat
      omega
    all_goals omega
  have hlast : (romWord s offset).extractLsb' 0 8 = s.bootrom.bytes offset := hbyte 0 (by decide)
  rw [← append_wordBytes (romWord s offset), hbyte 3 (by decide), hbyte 2 (by decide),
    hbyte 1 (by decide), hlast]

/-- A word of what stands in the ROM. -/
theorem romWord_of_standsAt {s : Vm} {offset i : Nat} {bytes : List Byte} {value : Word}
    (hbytes : StandsAt s.bootrom offset bytes) (hload : hostLoad32 bytes i = .ok value) :
    romWord s (offset + i) = value := by
  unfold hostLoad32 Lib.ByteBuffer.readAt at hload
  by_cases hfits : i + 4 ≤ bytes.length
  · have hbyte : ∀ k (hk : k < bytes.length), s.bootrom.bytes (offset + k) = bytes[k] := by
      intro k hk
      have hget := List.getElem_of_eq hbytes (i := k)
        (by rw [List.length_map, List.length_range]; exact hk)
      rwa [List.getElem_map, List.getElem_range] at hget
    rw [if_pos hfits, List.drop_eq_getElem_cons (by omega), List.drop_eq_getElem_cons (by omega),
      List.drop_eq_getElem_cons (by omega), List.drop_eq_getElem_cons (by omega),
      ← hbyte i (by omega), ← hbyte (i + 1) (by omega), ← hbyte (i + 1 + 1) (by omega),
      ← hbyte (i + 1 + 1 + 1) (by omega)] at hload
    rw [romWord_bytes]
    exact Except.ok.inj hload
  · rw [if_neg hfits] at hload
    cases hload

/-- The block `boot_info_init` writes, field by field. -/
theorem hostLoad32_info (info : ZeldaBootInfo) (field : BootInfoField) :
    hostLoad32 info.bytes field.offset = .ok (info field) := by
  cases field <;> exact congrArg Except.ok (append_wordBytes _)

section Tree

variable (config : TreeConfig)

theorem hostLoad32_treeHeader {i : Nat} (hi : i < (finalHeader
      (structBytes 0 (deviceTree config).tokens) (stringBytes (deviceTree config).tokens)).length) :
    hostLoad32 (treeBlob config) (4 * i) =
      .ok (bigEndian32 (finalHeader (structBytes 0 (deviceTree config).tokens)
        (stringBytes (deviceTree config).tokens))[i]) :=
  hostLoad32_words hi _

/-- The header names the blob's own size. -/
theorem hostLoad32_totalsize :
    hostLoad32 (treeBlob config) 4 =
      .ok (bigEndian32 (BitVec.ofNat 32 (treeBlob config).length)) := by
  have hsize : (treeBlob config).length = 56 + (structBytes 0 (deviceTree config).tokens).length +
      4 + (stringBytes (deviceTree config).tokens).length := length_finalBytes _ _
  rw [hsize, BitVec.ofNat_add]
  exact hostLoad32_treeHeader config (i := 1) (by simp [finalHeader, header])

theorem hostLoad32_magic : hostLoad32 (treeBlob config) 0 = .ok (bigEndian32 FDT_MAGIC) :=
  hostLoad32_treeHeader config (i := 0) (by simp [finalHeader, header])

theorem HasTree.of_standsAt {s : Vm} {address : Word}
    (hinside : address.toNat + (treeBlob config).length ≤ 0x400000)
    (hblob : StandsAt s.bootrom address.toNat (treeBlob config)) :
    HasTree s address (treeBlob config) where
  headed := by
    rw [treeBlob, length_finalBytes]
    omega
  inside := hinside
  bytes := hblob
  magic := romWord_of_standsAt hblob (hostLoad32_magic config)
  totalsize := by
    rw [romWord_of_standsAt hblob (hostLoad32_totalsize config), littleEndian32_bigEndian32]

theorem StandsAt.copyTo {rom : HostMem} {offset offset' : Nat} {bytes bytes' : List Byte}
    (hbytes : StandsAt rom offset bytes)
    (hapart : offset + bytes.length ≤ offset' ∨ offset' + bytes'.length ≤ offset) :
    StandsAt (rom.copyTo offset' bytes') offset bytes := by
  refine Eq.trans (List.map_congr_left fun i hi => ?_) hbytes
  have hlt := List.mem_range.mp hi
  exact copyTo_elsewhere rom (by omega)

theorem bootInfoInit_cases (config : TreeConfig) (kernelEntry : Word) (base : Nat) (rom : HostMem) :
    bootInfoInit config kernelEntry base rom =
      if base ≤ ZELDA_BOOT_INFO_ADDRESS ∧ ZELDA_BOOT_INFO_ADDRESS + 32 < base + rom.size then
        .ok (rom.copyTo (ZELDA_BOOT_INFO_ADDRESS - base) (bootInfoOf config kernelEntry).bytes)
      else .error .exit := by
  unfold bootInfoInit
  split
  case isTrue hfits =>
    rw [fdtAssert_of hfits]
    rfl
  case isFalse hfits =>
    rw [fdtAssert_of_not hfits]
    rfl

/-- The ROM `fdt_init` and `boot_info_init` leave tells the firmware what it asks for. -/
theorem informed_of_init {config : TreeConfig} (hbootarg : config.bootarg.strlen < 2 ^ 31) {base : Nat}
    {rom rom' rom'' : HostMem} {tree : FdtBuildBlob} {kernelEntry : Word}
    (htree : fdtInit config base rom = .ok (tree, rom'))
    (hinfo : bootInfoInit config kernelEntry base rom' = .ok rom'') {s : Vm} (hs : Ready s)
    (hrom : s.bootrom = rom'') (hsize : s.bootrom.size = 0x400000) :
    Informed s (bootInfoOf config kernelEntry) (treeBlob config) ∧ config.nrHarts ≤ 4 := by
  rw [fdtInit_cases config hbootarg] at htree
  split at htree
  case isFalse => cases htree
  case isTrue hfits =>
    obtain ⟨-, rfl⟩ := Prod.mk.inj (Except.ok.inj htree)
    obtain ⟨hadmissible, hbase, -⟩ := hfits
    have hlength := length_treeBlob config
    have hfit := hadmissible.2
    have hslot : StandsAt (rom.copyTo ZELDA_DTB_ADDRESS (treeBlob config)) ZELDA_DTB_ADDRESS
      (treeBlob config) := copyTo_slot rom _ _
    have hblock : (bootInfoOf config kernelEntry).bytes.length = 32 := rfl
    rw [bootInfoInit_cases] at hinfo
    split at hinfo
    case isFalse => cases hinfo
    obtain rfl := Except.ok.inj hinfo
    rw [hbase, Nat.sub_zero] at hrom
    have hstands : StandsAt s.bootrom ZELDA_BOOT_INFO_ADDRESS
        (bootInfoOf config kernelEntry).bytes := by
      rw [hrom]
      exact copyTo_slot _ _ _
    have hkept : StandsAt s.bootrom ZELDA_DTB_ADDRESS (treeBlob config) := by
      rw [hrom]
      apply hslot.copyTo
      left
      unfold ZELDA_DTB_ADDRESS ZELDA_BOOT_INFO_ADDRESS
      omega
    refine ⟨⟨hs, hsize, fun field => ?_, ?_⟩, hadmissible.1⟩
    · exact romWord_of_standsAt hstands (hostLoad32_info _ field)
    · apply HasTree.of_standsAt config
      · show 0x1000 + _ ≤ _
        omega
      · exact hkept

end Tree

/--
From the machine the vmm leaves behind, `fw_main` reaches the supervisor: the
harts of a tree that fits are few enough to print, and the block has its magic.
-/
theorem supervisor_entered {config : TreeConfig} (hbootarg : config.bootarg.strlen < 2 ^ 31)
    {base : Nat} {rom rom' rom'' : HostMem} {tree : FdtBuildBlob} {kernelEntry : Word}
    (htree : fdtInit config base rom = .ok (tree, rom'))
    (hinfo : bootInfoInit config kernelEntry base rom' = .ok rom'') {s : Vm} (hs : Ready s)
    (hrom : s.bootrom = rom'') (hsize : s.bootrom.size = 0x400000) {image : FirmwareImage}
    (hctx : image.sha1Ctx.buffer.length = 64) :
    ∃ t, fwMain image s = .ok () t ∧
      HandedOver image (bootInfoOf config kernelEntry) (treeBlob config) s t := by
  obtain ⟨hinformed, hharts⟩ := informed_of_init hbootarg htree hinfo hs hrom hsize
  refine fwMain_spec hinformed rfl ?_ hctx
  intro h
  have hnat := congrArg BitVec.toNat h
  have hright : (0x80000000 : Word).toNat = 2 ^ 31 := rfl
  have hleft : (bootInfoOf config kernelEntry .nrHarts).toNat = config.nrHarts :=
    Lib.ByteBuffer.toNat_ofNat_of_lt (by omega)
  omega

/-- The ROM of the shipped configuration. -/
def shippedBootrom : HostMem :=
  (shippedRom.copyTo 0x1000 (treeBlob shippedConfig)).copyTo 0x3000
    (bootInfoOf shippedConfig 0x80400000).bytes

def shippedImage : FirmwareImage where
  fwTrapVector := 0x4100
  fwStackTop := 0x20000
  sha1Ctx := Sha1.stackCtx

theorem supervisor_entered_shipped :
    ∃ t, fwMain shippedImage (virtualMachineInit shippedBootrom.bytes fun _ => 0) = .ok () t ∧
      t.hart.pc = 0x80400000 ∧ t.hart.privilegeLevel = PRIVILEGE_LEVEL_SUPERVISOR ∧
      t.hart.registers REG_A0 = 0 ∧ t.hart.registers REG_A1 = 0x1000 ∧
      t.hart.csrBlob CSR_ADDRESS_MSCRATCH = 0x20000 ∧ t.hart.status.sie = false := by
  have hready : Ready (virtualMachineInit shippedBootrom.bytes fun _ => 0) :=
    ⟨rfl, rfl, (by decide : initialUart.lcr &&& UART_LCR_DLAB = 0)⟩
  have hinfo : bootInfoInit shippedConfig 0x80400000 0
      (shippedRom.copyTo 0x1000 (treeBlob shippedConfig)) = .ok shippedBootrom := by
    rw [bootInfoInit_cases]
    exact if_pos ⟨by decide, (by decide : ZELDA_BOOT_INFO_ADDRESS + 32 < 0 + 0x400000)⟩
  obtain ⟨t, hrun, hover⟩ := supervisor_entered (by rw [bootarg_shippedConfig]; decide)
    fdtInit_shipped hinfo hready rfl rfl (show shippedImage.sha1Ctx.buffer.length = 64 from rfl)
  exact ⟨t, hrun, hover.pc, hover.privilegeLevel, hover.hartid, hover.dtb,
    hover.mscratch.trans (by decide), (congrArg Status.sie hover.status).trans rfl⟩

end Zelda.Proofs.Boot
