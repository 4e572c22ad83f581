import Zelda.Firmware.Printk
import Zelda.Lib.Digits
import Zelda.Proofs.SbiCalls
import Zelda.Vmm.Init
/-!
# What `printk` prints

The firmware prints what its formats and their arguments say, and nothing else
happens to the machine but that the UART's interrupt line comes up to date.
-/

namespace Zelda.Proofs.Printk

open Zelda.Vmm
open Zelda.Firmware
open Zelda.Lib.Digits
open Zelda.Lib.Effect
open Zelda.Proofs.SbiCalls

/-! ## The console -/

/-- Machine mode, and no divisor latch in the way of the transmitter. -/
structure Ready (s : Vm) : Prop where
  pmrOps : s.pmrOps = platformRegions
  machine : s.hart.privilegeLevel = PRIVILEGE_LEVEL_MACHINE
  lcr : s.uart.lcr &&& UART_LCR_DLAB = 0

/-- Every access to the UART brings its interrupt line up to date. -/
def refreshed (s : Vm) : Vm :=
  { s with plic := s.plic.setPending PLIC_IRQ_UART0 s.uart.interruptPending }

theorem Ready.refreshed {s : Vm} (hs : Ready s) : Ready (refreshed s) :=
  ⟨hs.pmrOps, hs.machine, hs.lcr⟩

/-- The machine after some more output. -/
def printed (s : Vm) (text : List Byte) : Vm :=
  if text = [] then s else { refreshed s with hostOutput := s.hostOutput ++ text }

theorem setPending_setPending (p : Plic) (source : Nat) (asserted : Bool) :
    (p.setPending source asserted).setPending source asserted = p.setPending source asserted := by
  cases asserted with
  | true => simp only [Plic.setPending, if_pos, BitVec.or_assoc, BitVec.or_self]
  | false =>
      simp only [Plic.setPending, Bool.false_eq_true, if_false, BitVec.and_assoc, BitVec.and_self]

@[simp] theorem refreshed_refreshed (s : Vm) : refreshed (refreshed s) = refreshed s :=
  congrArg (fun plic => { s with plic := plic }) (setPending_setPending _ _ _)

@[simp] theorem printed_nil (s : Vm) : printed s [] = s :=
  if_pos rfl

theorem printed_cons (s : Vm) (ch : Byte) (text : List Byte) :
    printed s (ch :: text) = { refreshed s with hostOutput := s.hostOutput ++ (ch :: text) } :=
  if_neg (List.cons_ne_nil _ _)

@[simp] theorem printed_printed (s : Vm) (text more : List Byte) :
    printed (printed s text) more = printed s (text ++ more) := by
  cases text with
  | nil => rw [printed_nil, List.nil_append]
  | cons ch text =>
      cases more with
      | nil => rw [printed_nil, List.append_nil]
      | cons ch' more =>
          have hrefreshed : refreshed { refreshed s with hostOutput := s.hostOutput ++ (ch :: text) } =
              { refreshed s with hostOutput := s.hostOutput ++ (ch :: text) } :=
            congrArg (fun t => { t with hostOutput := s.hostOutput ++ (ch :: text) })
              (refreshed_refreshed s)
          rw [printed_cons, printed_cons, hrefreshed, List.cons_append, printed_cons,
            ← List.cons_append, List.append_assoc]

theorem Ready.printed {s : Vm} (hs : Ready s) (text : List Byte) : Ready (printed s text) := by
  cases text with
  | nil => rwa [printed_nil]
  | cons ch text =>
      rw [printed_cons]
      exact ⟨hs.pmrOps, hs.machine, hs.lcr⟩

section Console

variable {s : Vm} (hs : Ready s)
include hs

theorem uartLoad_lsr :
    ∃ lsr : Byte, uartLoad UART_REG_LSR s = .ok lsr (refreshed s) ∧ lsr &&& UART_REG_STATUS_TX ≠ 0 := by
  have hread : vmread (UART16550_BASE + UART_REG_LSR) .b1 s =
      uartRegion.pmrRead (UART16550_BASE + UART_REG_LSR) .b1 s :=
    vmread_machine hs.pmrOps hs.machine (by decide) (by decide) (by decide) .b1
  let idle := UART_LSR_TEMT ||| UART_LSR_THRE
  refine ⟨if s.uart.rxEmpty then idle else idle ||| UART_LSR_DR, ?_, ?_⟩
  · unfold uartLoad
    rw [bind_apply, hread]
    show EStateM.Result.ok (BitVec.setWidth 8 (BitVec.setWidth 64 _)) (refreshed s) = _
    rw [BitVec.setWidth_setWidth_of_le _ (by decide), BitVec.setWidth_eq]
  · split <;> decide

/-- `uart16550_putchar` never waits. -/
theorem uart16550Putchar_ready (ch : Byte) :
    uart16550Putchar ch s = .ok () (printed s [ch]) := by
  obtain ⟨lsr, hload, hready⟩ := uartLoad_lsr hs
  have hwrite : vmwrite (UART16550_BASE + UART_REG_QUEUE) .b1 (ch.setWidth 64) (refreshed s) =
      uartRegion.pmrWrite (UART16550_BASE + UART_REG_QUEUE) .b1 (ch.setWidth 64) (refreshed s) :=
    vmwrite_machine hs.refreshed.pmrOps hs.refreshed.machine (by decide) (by decide) (by decide) _ _
  have hreg : s.uart.writeReg 0 ch = (some ch, s.uart) := by
    show (if s.uart.lcr &&& UART_LCR_DLAB ≠ 0 then _ else _) = _
    rw [if_neg (not_not_intro hs.lcr)]
  have hvalue : ((ch.setWidth 64).setWidth 8 : Byte) = ch := by
    rw [BitVec.setWidth_setWidth_of_le _ (by decide), BitVec.setWidth_eq]
  unfold uart16550Putchar
  rw [bind_apply_ok hload, if_neg hready, hwrite]
  show uartMmioWrite (UART16550_BASE + UART_REG_QUEUE) .b1 (ch.setWidth 64) (refreshed s) = _
  unfold uartMmioWrite
  rw [if_neg (by decide), bind_apply_ok (get_apply _), hvalue,
    show (UART16550_BASE + UART_REG_QUEUE - UART_16550_BASE).toNat = 0 from rfl,
    show (refreshed s).uart = s.uart from rfl, hreg]
  show EStateM.Result.ok () (refreshed { refreshed s with hostOutput := s.hostOutput ++ [ch] }) = _
  rw [printed_cons]
  exact congrArg (fun t => EStateM.Result.ok () { t with hostOutput := s.hostOutput ++ [ch] })
    (refreshed_refreshed s)

theorem putBytes_ready (text : List Byte) : putBytes text s = .ok () (printed s text) := by
  induction text generalizing s with
  | nil => exact congrArg _ (printed_nil s).symm
  | cons ch text ih =>
      unfold putBytes
      rw [bind_apply_ok (uart16550Putchar_ready hs ch), ih (hs.printed [ch]), printed_printed]
      rfl

end Console

/-! ## Numbers -/

def decimalDigit (d : Nat) : Byte :=
  asciiByte '0' + BitVec.ofNat 8 d

def hexDigit (isLowercase : Bool) (d : Nat) : Byte :=
  (hexDigits isLowercase).getD d 0

/-- What `%d` prints. -/
def decimalText (value : Word) : List Byte :=
  (if value.toInt < 0 then [asciiByte '-'] else []) ++
    numeral 10 decimalDigit value.toInt.natAbs

/-- What `%x` and `%X` print. -/
def hexText (isLowercase : Bool) (value : Word) : List Byte :=
  numeral 16 (hexDigit isLowercase) value.toNat

theorem eq_zero_iff_toNat (qword : Word) : qword = 0 ↔ qword.toNat = 0 :=
  ⟨fun h => congrArg BitVec.toNat h, fun h => BitVec.eq_of_toNat_eq h⟩

theorem int32Stack_eq {qword : Word} (hqword : qword.toNat < 2 ^ 31) (room : Nat)
    (stack : List Byte) :
    int32Stack room qword stack = stackDigits 10 decimalDigit room qword.toNat stack := by
  induction room generalizing qword stack with
  | zero => rfl
  | succ room ih =>
      have hmsb : qword.msb = false := by
        rw [BitVec.msb_eq_false_iff_two_mul_lt]
        omega
      have hquotient : (qword.sdiv 10).toNat = qword.toNat / 10 := by
        rw [BitVec.sdiv_eq, hmsb]
        exact BitVec.toNat_udiv
      have hremainder : (qword.srem 10).toNat = qword.toNat % 10 := by
        rw [BitVec.srem_eq, hmsb]
        exact BitVec.toNat_umod
      have hdigit : asciiByte '0' + (qword.srem 10).setWidth 8 =
          decimalDigit (qword.toNat % 10) := by
        rw [decimalDigit, ← hremainder]
        rfl
      unfold int32Stack stackDigits
      rw [← hquotient, hdigit, ih (by rw [hquotient]; omega),
        if_congr (eq_zero_iff_toNat qword) rfl rfl]

theorem hexStack_eq (isLowercase : Bool) (room : Nat) (qword : Word) (stack : List Byte) :
    hexStack (hexDigits isLowercase) room qword stack =
      stackDigits 16 (hexDigit isLowercase) room qword.toNat stack := by
  induction room generalizing qword stack with
  | zero => rfl
  | succ room ih =>
      have hquotient : (qword >>> 4).toNat = qword.toNat / 16 := by
        rw [BitVec.toNat_ushiftRight, Nat.shiftRight_eq_div_pow]
      have hremainder : (qword &&& 0xf).toNat = qword.toNat % 16 := by
        rw [BitVec.toNat_and]
        exact Nat.and_two_pow_sub_one_eq_mod qword.toNat 4
      unfold hexStack stackDigits
      rw [ih, hquotient, hremainder, ← hexDigit, if_congr (eq_zero_iff_toNat qword) rfl rfl]

/-- A stack with the digits of a number on it prints as its numeral. -/
theorem printStack_leading {base n : Nat} {digit : Nat → Byte} (hbase : 1 < base)
    (hzero : digit 0 = asciiByte '0') {s : Vm} (hs : Ready s) :
    printStack (leading base digit n) s = .ok () (printed s (numeral base digit n)) := by
  unfold printStack numeral
  rcases Nat.eq_zero_or_pos n with rfl | hn
  · rw [leading_zero, if_pos rfl, if_pos (by rfl), hzero]
    exact putBytes_ready hs _
  · have hdigits := leading_ne_nil digit hbase hn
    rw [if_neg hn.ne', if_neg (by rw [List.isEmpty_iff]; exact hdigits)]
    exact putBytes_ready hs _

theorem slt_zero_iff (value : Word) : value.slt 0 = true ↔ value.toInt < 0 := by
  rw [BitVec.slt_iff_toInt_lt]
  rfl

section Numbers

variable {s : Vm} (hs : Ready s) (value : Word)
include hs

theorem resolveInt32_ready (hvalue : 0 ≤ value.toInt) :
    resolveInt32 value s = .ok () (printed s (numeral 10 decimalDigit value.toNat)) := by
  have hsmall : value.toNat < 2 ^ 31 := by
    rw [BitVec.toInt_eq_toNat_cond] at hvalue
    omega
  have hroom : value.toNat < 10 ^ DEFAULT_RESOLVE_STACK :=
    hsmall.trans (by decide)
  unfold resolveInt32
  rw [if_neg (by rw [slt_zero_iff]; omega), int32Stack_eq hsmall,
    stackDigits_eq _ (by decide) hroom, List.append_nil]
  exact printStack_leading (by decide) rfl hs

theorem resolveHexUint32_ready (isLowercase : Bool) :
    resolveHexUint32 value isLowercase s = .ok () (printed s (hexText isLowercase value)) := by
  have hroom : value.toNat < 16 ^ DEFAULT_RESOLVE_STACK :=
    value.isLt.trans (by decide)
  have hzero : hexDigit isLowercase 0 = asciiByte '0' := by
    cases isLowercase <;> rfl
  unfold resolveHexUint32
  rw [hexStack_eq, stackDigits_eq _ (by decide) hroom, List.append_nil]
  exact printStack_leading (by decide) hzero hs

theorem printInt32_ready (hvalue : value ≠ 0x80000000) :
    printInt32 value s = .ok () (printed s (decimalText value)) := by
  have hlt := value.isLt
  have hne : value.toNat ≠ 2 ^ 31 := fun h => hvalue (BitVec.eq_of_toNat_eq h)
  have htoInt := BitVec.toInt_eq_toNat_cond value
  unfold printInt32 decimalText
  by_cases hsign : value.toInt < 0
  · have hnegated : (-value).toNat = value.toInt.natAbs := by
      rw [BitVec.toNat_neg]
      omega
    have hpositive : 0 ≤ (-value).toInt := by
      rw [BitVec.toInt_eq_toNat_cond]
      omega
    rw [if_pos ((slt_zero_iff value).mpr hsign), bind_apply_ok (uart16550Putchar_ready hs _),
      if_neg hvalue, resolveInt32_ready (hs.printed _) _ hpositive, printed_printed, hnegated,
      if_pos hsign]
  · have hmagnitude : value.toInt.natAbs = value.toNat := by omega
    rw [if_neg (by rwa [slt_zero_iff]), if_neg hsign, hmagnitude, List.nil_append]
    exact resolveInt32_ready hs value (by omega)

end Numbers

/-! ## Formats -/

/-- The text of a directive and the arguments it leaves; `none` where the argument is another. -/
def directiveText : Directive → List PrintkArg → Option (List Byte × List PrintkArg)
  | .string, .string text :: args => some (text.bytes, args)
  | .char, .word value :: args => some ([value.setWidth 8], args)
  | .decimal, .word value :: args =>
      if value = 0x80000000 then none else some (decimalText value, args)
  | .hex isLowercase, .word value :: args => some (hexText isLowercase value, args)
  | .other, args => some ([], args)
  | _, _ => none

/-- The text of a format; `none` where an argument does not fit or the format ends in `%`. -/
def rendered : List Byte → List PrintkArg → Option (List Byte)
  | [], _ => some []
  | ch :: fmt, args =>
      if ch ≠ asciiByte '%' then (rendered fmt args).map (ch :: ·)
      else
        match fmt with
        | [] => none
        | directive :: fmt =>
            (directiveText (Directive.ofByte directive) args).bind fun (text, rest) =>
              (rendered fmt rest).map (text ++ ·)

@[simp] theorem rendered_nil (args : List PrintkArg) : rendered [] args = some [] := rfl

theorem rendered_char {ch : Byte} (hch : ch ≠ asciiByte '%') (fmt : List Byte)
    (args : List PrintkArg) :
    rendered (ch :: fmt) args = (rendered fmt args).map (ch :: ·) := by
  rw [rendered.eq_def]
  exact if_pos hch

theorem rendered_end (args : List PrintkArg) : rendered [asciiByte '%'] args = none := by
  rw [rendered.eq_def]
  rfl

theorem rendered_directive (directive : Byte) (fmt : List Byte) (args : List PrintkArg) :
    rendered (asciiByte '%' :: directive :: fmt) args =
      (directiveText (Directive.ofByte directive) args).bind fun (text, rest) =>
        (rendered fmt rest).map (text ++ ·) := by
  rw [rendered.eq_def]
  rfl

theorem rendered_plain {plain : List Byte} (hplain : asciiByte '%' ∉ plain) (fmt : List Byte)
    (args : List PrintkArg) :
    rendered (plain ++ fmt) args = (rendered fmt args).map (plain ++ ·) := by
  induction plain with
  | nil => exact Option.map_id'.symm
  | cons ch plain ih =>
      rw [List.mem_cons, not_or] at hplain
      rw [List.cons_append, rendered_char (Ne.symm hplain.1), ih hplain.2, Option.map_map]
      rfl

theorem rendered_text (plain : List Byte) (hplain : asciiByte '%' ∉ plain)
    (args : List PrintkArg) : rendered plain args = some plain := by
  have hrendered := rendered_plain hplain [] args
  rwa [List.append_nil, rendered_nil, Option.map_some, List.append_nil] at hrendered

theorem rendered_hex (value : Word) (fmt : List Byte) (args : List PrintkArg) :
    rendered (asciiByte '%' :: asciiByte 'x' :: fmt) (.word value :: args) =
      (rendered fmt args).map (hexText true value ++ ·) :=
  rendered_directive _ _ _

theorem rendered_decimal {value : Word} (hvalue : value ≠ 0x80000000) (fmt : List Byte)
    (args : List PrintkArg) :
    rendered (asciiByte '%' :: asciiByte 'd' :: fmt) (.word value :: args) =
      (rendered fmt args).map (decimalText value ++ ·) := by
  rw [rendered_directive]
  show (if value = 0x80000000 then none else some (decimalText value, args)).bind _ = _
  rw [if_neg hvalue]
  rfl

theorem rendered_string (text : CString) (fmt : List Byte) (args : List PrintkArg) :
    rendered (asciiByte '%' :: asciiByte 's' :: fmt) (.string text :: args) =
      (rendered fmt args).map (text.bytes ++ ·) :=
  rendered_directive _ _ _

/-- `m` prints the text of `r` and returns its value, or comes to something C leaves undefined. -/
def Prints {α : Type} (s : Vm) (m : VmM α) (r : Option (List Byte × α)) : Prop :=
  match r with
  | some (text, a) => m s = .ok a (printed s text)
  | none => ∃ text, m s = .error .hostFault (printed s text)

theorem prints_pure {α : Type} (s : Vm) (a : α) : Prints s (pure a) (some ([], a)) :=
  congrArg _ (printed_nil s).symm

theorem prints_undefined {α : Type} (s : Vm) : Prints s (undefined : VmM α) none :=
  ⟨[], congrArg _ (printed_nil s).symm⟩

theorem prints_bind {α β : Type} {s : Vm} {m : VmM α} {f : α → VmM β}
    {r : Option (List Byte × α)} {r' : α → Option (List Byte × β)} (hm : Prints s m r)
    (hf : ∀ text a, Prints (printed s text) (f a) (r' a)) :
    Prints s (m >>= f) (r.bind fun (text, a) => (r' a).map fun (more, b) => (text ++ more, b)) := by
  cases r with
  | none =>
      obtain ⟨text, hrun⟩ := hm
      exact ⟨text, bind_apply_error hrun⟩
  | some result =>
      obtain ⟨text, a⟩ := result
      have hrest := hf text a
      show Prints s (m >>= f) ((r' a).map _)
      cases hr : r' a with
      | none =>
          rw [hr] at hrest
          obtain ⟨more, hrun⟩ := hrest
          exact ⟨_, (bind_apply_ok hm).trans (hrun.trans (congrArg _ (printed_printed s _ _)))⟩
      | some result =>
          rw [hr] at hrest
          exact (bind_apply_ok hm).trans (Eq.trans hrest (congrArg _ (printed_printed s _ _)))

/-- A last `pure` adds nothing to the text. -/
theorem prints_then {α β : Type} {s : Vm} {m : VmM α} {text : List Byte} {a : α} (b : β)
    (hm : m s = .ok a (printed s text)) : Prints s (m >>= fun _ => pure b) (some (text, b)) :=
  bind_apply_ok hm

section Formats

variable {s : Vm} (hs : Ready s)
include hs

theorem printDirective_ready (directive : Directive) (args : List PrintkArg) :
    Prints s (printDirective directive args) (directiveText directive args) := by
  match directive, args with
  | .string, .string text :: args => exact prints_then args (putBytes_ready hs text.bytes)
  | .char, .word value :: args => exact prints_then args (uart16550Putchar_ready hs _)
  | .decimal, .word value :: args =>
      by_cases hvalue : value = 0x80000000
      · subst hvalue
        exact ⟨[asciiByte '-'], bind_apply_error (bind_apply_ok (uart16550Putchar_ready hs _))⟩
      · show Prints s _ (if value = 0x80000000 then none else some (decimalText value, args))
        rw [if_neg hvalue]
        exact prints_then args (printInt32_ready hs value hvalue)
  | .hex isLowercase, .word value :: args =>
      exact prints_then args (resolveHexUint32_ready hs value isLowercase)
  | .other, args => exact prints_pure s args
  | .string, [] | .string, .word _ :: _ | .char, [] | .char, .string _ :: _
  | .decimal, [] | .decimal, .string _ :: _ | .hex _, [] | .hex _, .string _ :: _ =>
      exact prints_undefined s

theorem printkMpRaw_ready (fmt : List Byte) (args : List PrintkArg) :
    Prints s (printkMpRaw fmt args) ((rendered fmt args).map (·, ())) := by
  fun_induction printkMpRaw fmt args generalizing s with
  | case1 args => exact prints_pure s ()
  | case2 ch fmt args hch ih =>
      have hch' : Prints s (uart16550Putchar ch) (some ([ch], ())) :=
        uart16550Putchar_ready hs ch
      have hrun := prints_bind hch' fun text _ => ih (hs.printed text)
      rw [rendered_char hch]
      simpa only [Option.bind_some, Option.map_map, Function.comp_def, List.singleton_append]
        using hrun
  | case3 ch args hch =>
      obtain rfl := not_ne_iff.mp hch
      rw [rendered_end]
      exact prints_undefined s
  | case4 ch args hch directive fmt ih =>
      obtain rfl := not_ne_iff.mp hch
      have hrun := prints_bind (printDirective_ready hs (Directive.ofByte directive) args)
        fun text rest => ih rest (hs.printed text)
      rw [rendered_directive]
      simpa only [Option.map_bind, Option.map_map, Function.comp_def] using hrun

/--
`printk_no_prefix` prints the text of its format and changes nothing else of
the machine; what C leaves undefined it reaches exactly where there is no such
text.
-/
theorem printkNoPrefix_ready (fmt : CString) (args : List PrintkArg) :
    match rendered fmt.bytes args with
    | some text => printkNoPrefix fmt args s = .ok () (printed s text)
    | none => ∃ text, printkNoPrefix fmt args s = .error .hostFault (printed s text) := by
  have hrun := printkMpRaw_ready hs fmt.bytes args
  unfold printkNoPrefix
  cases htext : rendered fmt.bytes args with
  | none =>
      rw [htext] at hrun
      exact hrun
  | some text =>
      rw [htext] at hrun
      exact hrun

end Formats

/-- A machine just switched on, with a cause in `mcause`. -/
def causedVm (cause : Word) : Vm :=
  let vm := virtualMachineInit (fun _ => 0) fun _ => 0
  { vm with hart := vm.hart.setCsrBlob CSR_ADDRESS_MCAUSE cause }

theorem ready_causedVm (cause : Word) : Ready (causedVm cause) where
  pmrOps := rfl
  machine := rfl
  lcr := (by decide : initialUart.lcr &&& UART_LCR_DLAB = 0)

/-- Two numbers, and a format that ends in `%`. -/
theorem printkNoPrefix_ready_numbers :
    printkNoPrefix (literal "%d%x") [.word (-5), .word 0xbe] (causedVm 0) =
        .ok () (printed (causedVm 0) (ascii "-5be".toList)) ∧
      ∃ text, printkNoPrefix (literal "5%") [] (causedVm 0) =
        .error .hostFault (printed (causedVm 0) text) := by
  have htext : rendered (literal "%d%x").bytes [.word (-5), .word 0xbe] =
      some (ascii "-5be".toList) := by
    rw [show (literal "%d%x").bytes =
        asciiByte '%' :: asciiByte 'd' :: [asciiByte '%', asciiByte 'x'] from rfl,
      rendered_decimal (by decide), rendered_hex]
    simp [decimalText, hexText, numeral, leading]
    decide
  have hend : rendered (literal "5%").bytes [] = none := by
    rw [show (literal "5%").bytes = ascii "5".toList ++ [asciiByte '%'] from rfl,
      rendered_plain (by decide), rendered_end]
    rfl
  have hnumbers :=
    printkNoPrefix_ready (ready_causedVm 0) (literal "%d%x") [.word (-5), .word 0xbe]
  have hfails := printkNoPrefix_ready (ready_causedVm 0) (literal "5%") []
  rw [htext] at hnumbers
  rw [hend] at hfails
  exact ⟨hnumbers, hfails⟩

/-! ## Messages of the firmware -/

/-- Plain text behind the prefix of the macro. -/
def message (text : List Byte) : List Byte :=
  ascii "BOOTROM: ".toList ++ text

/-- What `fw_fatal` prints. -/
def fatalText (what : CString) (mcause mepc mtval : Word) : List Byte :=
  message (ascii "\r\n[firmware] unhandled ".toList ++ (what.bytes ++ ascii "\r\n".toList)) ++
    (message (ascii "[firmware]   mcause 0x".toList ++ (hexText true mcause ++
      (ascii " mepc 0x".toList ++ (hexText true mepc ++
      (ascii " mtval 0x".toList ++ (hexText true mtval ++ ascii "\r\n".toList)))))) ++
    message (ascii "[firmware] halting.\r\n".toList))

/-- What `sbi_shutdown` prints. -/
def shutdownText : List Byte :=
  message (ascii "\r\nzelda: system halted\r\n".toList)

theorem rendered_message (fmt : List Byte) (args : List PrintkArg) :
    rendered (ascii "BOOTROM: ".toList ++ fmt) args = (rendered fmt args).map message :=
  rendered_plain (by decide) fmt args

theorem rendered_unhandled (what : CString) :
    rendered (ascii "\r\n[firmware] unhandled %s\r\n".toList) [.string what] =
      some (ascii "\r\n[firmware] unhandled ".toList ++ (what.bytes ++ ascii "\r\n".toList)) := by
  have hpieces : ascii "\r\n[firmware] unhandled %s\r\n".toList =
      ascii "\r\n[firmware] unhandled ".toList ++
        asciiByte '%' :: asciiByte 's' :: ascii "\r\n".toList := rfl
  rw [hpieces, rendered_plain (by decide), rendered_string, rendered_text _ (by decide)]
  rfl

theorem rendered_registers (mcause mepc mtval : Word) :
    rendered (ascii "[firmware]   mcause 0x%x mepc 0x%x mtval 0x%x\r\n".toList)
        [.word mcause, .word mepc, .word mtval] =
      some (ascii "[firmware]   mcause 0x".toList ++ (hexText true mcause ++
        (ascii " mepc 0x".toList ++ (hexText true mepc ++
        (ascii " mtval 0x".toList ++ (hexText true mtval ++ ascii "\r\n".toList)))))) := by
  have hpieces : ascii "[firmware]   mcause 0x%x mepc 0x%x mtval 0x%x\r\n".toList =
      ascii "[firmware]   mcause 0x".toList ++ asciiByte '%' :: asciiByte 'x' ::
        (ascii " mepc 0x".toList ++ asciiByte '%' :: asciiByte 'x' ::
        (ascii " mtval 0x".toList ++ asciiByte '%' :: asciiByte 'x' :: ascii "\r\n".toList)) := rfl
  rw [hpieces, rendered_plain (by decide), rendered_hex, rendered_plain (by decide), rendered_hex,
    rendered_plain (by decide), rendered_hex, rendered_text _ (by decide)]
  rfl

section Messages

variable {s : Vm} (hs : Ready s)
include hs

theorem printkNoPrefix_rendered {fmt : CString} {args : List PrintkArg} {text : List Byte}
    (htext : rendered fmt.bytes args = some text) :
    printkNoPrefix fmt args s = .ok () (printed s text) := by
  have hrun := printkMpRaw_ready hs fmt.bytes args
  rw [htext] at hrun
  unfold printkNoPrefix
  exact hrun

theorem printk_ready {fmt : String} {args : List PrintkArg} {text : List Byte}
    (htext : rendered (ascii fmt.toList) args = some text) :
    printk fmt args s = .ok () (printed s (message text)) := by
  unfold printk
  refine printkNoPrefix_rendered hs ((rendered_message _ args).trans ?_)
  rw [show (literal fmt).bytes = ascii fmt.toList from rfl, htext]
  rfl

/-- `fw_fatal` prints what it was told, and stops. -/
theorem fwFatal_ready {α : Type} (what : CString) (mcause mepc mtval : Word) :
    (fwFatal what mcause mepc mtval : VmM α) s =
      .error .exit (printed s (fatalText what mcause mepc mtval)) := by
  have hready := hs.printed
  unfold fwFatal
  rw [bind_apply_ok (printk_ready hs (rendered_unhandled what)),
    bind_apply_ok (printk_ready (hready _) (rendered_registers mcause mepc mtval)),
    bind_apply_ok (printk_ready ((hready _).printed _)
      (rendered_text (ascii "[firmware] halting.\r\n".toList) (by decide) [])),
    printed_printed, printed_printed]
  rfl

/-- `sbi_shutdown` prints its message and powers the machine off. -/
theorem sbiShutdown_ready : sbiShutdown s = .error .exit (printed s shutdownText) := by
  have hhalted := printk_ready hs
    (rendered_text (ascii "\r\nzelda: system halted\r\n".toList) (by decide) [])
  have hready := hs.printed shutdownText
  have hstore : store32 SYSCON_BASE SYSCON_POWEROFF (printed s shutdownText) =
      .error .exit (printed s shutdownText) :=
    vmwrite_machine hready.pmrOps hready.machine (by decide : sysconRegion ∈ platformRegions)
      (by decide) (by decide) _ _
  unfold sbiShutdown
  rw [bind_apply_ok hhalted]
  exact bind_apply_error hstore

end Messages

/-! ## Traps that do not return -/

/-- An SBI call that asks for the machine to be powered off. -/
def RequestsShutdown (frame : TrapFrame) : Prop :=
  frame REG_A7 = SBI_EXT_LEGACY_SHUTDOWN ∨ frame REG_A7 = SBI_EXT_SRST ∧ frame REG_A6 = 0

instance (frame : TrapFrame) : Decidable (RequestsShutdown frame) :=
  inferInstanceAs (Decidable (_ ∨ _ ∧ _))

/-- What the firmware prints where a trap is the end: it has no service for it, or is told to stop. -/
def lastWords (frame : TrapFrame) (s : Vm) : Option (List Byte) :=
  if machineCause s &&& 0x80000000 ≠ 0 then
    if machineCause s &&& 0xff = IRQ_MACHINE_TIMER ∨
        machineCause s &&& 0xff = IRQ_MACHINE_SOFTWARE then none
    else
      some (fatalText (literal "machine interrupt") (machineCause s &&& 0xff)
        (s.hart.csrBlob CSR_ADDRESS_MEPC) 0)
  else if machineCause s = CAUSE_SUPERVISOR_ECALL then
    if RequestsShutdown frame then some shutdownText else none
  else
    some (fatalText (literal "machine exception") (machineCause s)
      (s.hart.csrBlob CSR_ADDRESS_MEPC) (s.hart.csrBlob CSR_ADDRESS_MTVAL))

theorem readCsr_mtval (s : Vm) :
    readCsr CSR_ADDRESS_MTVAL s = .ok (s.hart.csrBlob CSR_ADDRESS_MTVAL) s :=
  readCsr_blob rfl s

section Halts

variable {s : Vm} (hs : Ready s)
include hs

theorem fwHandleInterrupt_halts {cause : Word}
    (hcause : ¬(cause = IRQ_MACHINE_TIMER ∨ cause = IRQ_MACHINE_SOFTWARE)) :
    fwHandleInterrupt cause s =
      .error .exit (printed s
        (fatalText (literal "machine interrupt") cause (s.hart.csrBlob CSR_ADDRESS_MEPC) 0)) := by
  rw [not_or] at hcause
  unfold fwHandleInterrupt
  rw [if_neg hcause.1, if_neg hcause.2, bind_apply_ok (readCsr_mepc s)]
  exact fwFatal_ready hs _ _ _ _

theorem sbiDispatch_halts {frame : TrapFrame} (hrequest : RequestsShutdown frame) :
    sbiDispatch frame s = .error .exit (printed s shutdownText) := by
  have hshutdown := sbiShutdown_ready hs
  unfold sbiDispatch
  rcases hrequest with hlegacy | ⟨hextension, hfunction⟩
  · have hresult : legacyResult frame SBI_EXT_LEGACY_SHUTDOWN = sbiShutdown >>= fun _ => pure 0 :=
      rfl
    unfold sbiLegacyCall
    rw [hlegacy, if_pos (by decide), hresult]
    exact bind_apply_error (bind_apply_error hshutdown)
  · have hresult : modernResult frame SBI_EXT_SRST 0 =
        sbiShutdown >>= fun _ => pure (SBI_SUCCESS, 0) :=
      rfl
    unfold sbiModernCall
    rw [hextension, hfunction, if_neg (by decide), hresult]
    exact bind_apply_error (bind_apply_error hshutdown)

/--
Where a trap is the end, the firmware prints its last words, and nothing else
happens.
-/
theorem fwTrapHandler_halts {frame : TrapFrame} {text : List Byte}
    (hwords : lastWords frame s = some text) :
    fwTrapHandler frame s = .error .exit (printed s text) := by
  unfold lastWords at hwords
  unfold fwTrapHandler
  rw [bind_apply_ok (readCsr_mcause s)]
  show (if machineCause s &&& 0x80000000 ≠ 0 then _ else
    if machineCause s = CAUSE_SUPERVISOR_ECALL then _ else _ : VmM TrapFrame) s = _
  by_cases hinterrupt : machineCause s &&& 0x80000000 ≠ 0
  · rw [if_pos hinterrupt] at hwords ⊢
    obtain ⟨hserved, htext⟩ := Option.ite_none_left_eq_some.mp hwords
    obtain rfl := Option.some.inj htext
    exact bind_apply_error (fwHandleInterrupt_halts hs hserved)
  · rw [if_neg hinterrupt] at hwords ⊢
    by_cases hcall : machineCause s = CAUSE_SUPERVISOR_ECALL
    · rw [if_pos hcall] at hwords ⊢
      obtain ⟨hrequest, htext⟩ := Option.ite_none_right_eq_some.mp hwords
      obtain rfl := Option.some.inj htext
      exact bind_apply_error (sbiDispatch_halts hs hrequest)
    · rw [if_neg hcall] at hwords ⊢
      obtain rfl := Option.some.inj hwords
      rw [bind_apply_ok (readCsr_mepc s), bind_apply_ok (readCsr_mtval s)]
      exact fwFatal_ready hs _ _ _ _

end Halts

/-- An illegal instruction, and a call that asks for a shutdown. -/
theorem fwTrapHandler_halts_illegal :
    fwTrapHandler (fun _ => 0) (causedVm 2) = .error .exit
        (printed (causedVm 2) (fatalText (literal "machine exception") 2 0 0)) ∧
      fwTrapHandler (fun _ => SBI_EXT_LEGACY_SHUTDOWN) (causedVm CAUSE_SUPERVISOR_ECALL) =
        .error .exit (printed (causedVm CAUSE_SUPERVISOR_ECALL) shutdownText) :=
  ⟨fwTrapHandler_halts (ready_causedVm _) rfl, fwTrapHandler_halts (ready_causedVm _) rfl⟩

end Zelda.Proofs.Printk
