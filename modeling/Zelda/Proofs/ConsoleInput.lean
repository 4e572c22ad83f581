import Zelda.Lib.Ring
import Zelda.Vmm.Init
import Zelda.Vmm.Interrupt
/-!
# Console input

What the operator types reaches the guest as typed, however the host hands it
over and whenever the guest reads it.  The escape character is typed twice to
be sent once; the two copies may arrive in different reads of the terminal.
-/

namespace Zelda.Proofs.ConsoleInput

open Zelda.Vmm
open Zelda.Lib.Effect
open Zelda.Lib

/-! ## The receive queue -/

/-- The bytes waiting in the fifo, oldest first. -/
def queued (u : Uart) : List Byte :=
  Ring.contents u.rxFifo UART_RX_FIFO_SIZE u.rxHead u.rxTail

/-- Both indices name a cell of the fifo. -/
structure InRange (u : Uart) : Prop where
  head_lt : u.rxHead < UART_RX_FIFO_SIZE
  tail_lt : u.rxTail < UART_RX_FIFO_SIZE

theorem queued_eq_nil_iff {u : Uart} (hu : InRange u) : queued u = [] ↔ u.rxEmpty = true := by
  rw [queued, Ring.contents_eq_nil_iff _ hu.head_lt hu.tail_lt, Uart.rxEmpty, beq_iff_eq]

theorem rxPush_spec {u : Uart} (hu : InRange u) (hroom : (queued u).length ≠ 255) (ch : Byte) :
    InRange (u.rxPush ch) ∧ queued (u.rxPush ch) = queued u ++ [ch] ∧
      (u.rxPush ch).escapeArmed = u.escapeArmed := by
  have hnext : ¬(u.rxTail + 1) % UART_RX_FIFO_SIZE = u.rxHead := by
    rw [Ring.full_iff hu.head_lt hu.tail_lt]
    rw [queued, Ring.length_contents] at hroom
    exact hroom
  unfold Uart.rxPush
  simp only
  rw [if_neg hnext]
  refine ⟨⟨hu.head_lt, Nat.mod_lt _ (by decide)⟩, ?_, rfl⟩
  exact Ring.contents_push u.rxFifo ch hu.head_lt hu.tail_lt hnext

theorem rxPop_spec {u : Uart} (hu : InRange u) (hne : u.rxEmpty = false) :
    InRange u.rxPop.2 ∧ queued u = u.rxPop.1 :: queued u.rxPop.2 ∧
      u.rxPop.2.escapeArmed = u.escapeArmed := by
  unfold Uart.rxPop
  rw [if_neg (by rw [hne]; decide)]
  refine ⟨⟨Nat.mod_lt _ (by decide), hu.tail_lt⟩, ?_, rfl⟩
  apply Ring.contents_pop u.rxFifo hu.head_lt hu.tail_lt
  intro heq
  rw [Uart.rxEmpty, heq, beq_self_eq_true] at hne
  cases hne

/-! ## The escape sequence -/

/-- What the operator types to send `s`. -/
def typed : List Byte → List Byte
  | [] => []
  | ch :: rest => if ch = UART_ESCAPE_CHAR then ch :: ch :: typed rest else ch :: typed rest

/-- What is still to come on the line when `rem` is still to be received. -/
def Pending (armed : Bool) (line rem : List Byte) : Prop :=
  if armed then ∃ rest, rem = UART_ESCAPE_CHAR :: rest ∧ line = UART_ESCAPE_CHAR :: typed rest
  else line = typed rem

/-- Nothing is left to receive once the line is drained. -/
theorem Pending.nil {armed : Bool} {rem : List Byte} (h : Pending armed [] rem) : rem = [] := by
  unfold Pending at h
  split at h
  · obtain ⟨rest, -, hline⟩ := h
    cases hline
  · cases rem with
    | nil => rfl
    | cons ch rest =>
        rw [typed] at h
        split at h <;> cases h

/-- The queue has room whenever a byte arrives. -/
def NeverFull (u : Uart) : List Byte → Prop
  | [] => True
  | ch :: rest =>
      (queued u).length ≠ 255 ∧
        match u.receive [ch] with
        | some u' => NeverFull u' rest
        | none => True

instance decidableNeverFull : (u : Uart) → (chunk : List Byte) → Decidable (NeverFull u chunk)
  | _, [] => .isTrue trivial
  | u, ch :: rest =>
      haveI : Decidable
          (match u.receive [ch] with
          | some u' => NeverFull u' rest
          | none => True) :=
        match u.receive [ch] with
        | some u' => decidableNeverFull u' rest
        | none => .isTrue trivial
      inferInstanceAs (Decidable (_ ∧ _))

theorem receive_cons (u : Uart) (ch : Byte) (rest : List Byte) :
    u.receive (ch :: rest) = (u.receive [ch]).bind fun u' => u'.receive rest := by
  rw [Uart.receive, Uart.receive]
  by_cases harmed : u.escapeArmed = true
  · rw [if_pos harmed, if_pos harmed]
    simp only
    split
    · rfl
    split
    · rfl
    · rfl
  · rw [if_neg harmed, if_neg harmed]
    split
    · rfl
    · rfl

/--
How far a message has come: `out` has been handed on, some of it is queued, and
the rest is what the bytes on the line stand for.
-/
structure Receiving (message line out : List Byte) (u : Uart) : Prop where
  range : InRange u
  split : ∃ rem, message = out ++ queued u ++ rem ∧ Pending u.escapeArmed line rem

/-- One byte of the line. -/
theorem receiving_byte {message line out : List Byte} {ch : Byte} {u : Uart}
    (h : Receiving message (ch :: line) out u) (hroom : (queued u).length ≠ 255) :
    ∃ u', u.receive [ch] = some u' ∧ Receiving message line out u' := by
  obtain ⟨rem, hmessage, hpending⟩ := h.split
  have hpush : ∀ (v : Uart) (x : Byte) (rest : List Byte), InRange v → queued v = queued u →
      v.escapeArmed = false → rem = x :: rest → line = typed rest →
      Receiving message line out (v.rxPush x) := by
    intro v x rest hv hqueued harmed hrem hline
    rw [← hqueued] at hroom
    obtain ⟨hrange, hcontents, harmed'⟩ := rxPush_spec hv hroom x
    refine ⟨hrange, rest, ?_, ?_⟩
    · rw [hcontents, hmessage, hrem, hqueued]
      simp only [List.append_assoc, List.singleton_append]
    · rw [Pending, harmed', harmed]
      exact hline
  unfold Pending at hpending
  by_cases harmed : u.escapeArmed = true
  · -- the second copy of an escape character
    rw [if_pos harmed] at hpending
    obtain ⟨rest, hrem, hline⟩ := hpending
    obtain ⟨rfl, hrest⟩ := List.cons.inj hline
    refine ⟨{ u with escapeArmed := false }.rxPush UART_ESCAPE_CHAR, ?_, ?_⟩
    · rw [Uart.receive, if_pos harmed, if_neg (by decide), if_pos rfl]
      rfl
    · exact hpush { u with escapeArmed := false } _ rest ⟨h.range.head_lt, h.range.tail_lt⟩ rfl rfl
        hrem hrest
  · rw [if_neg harmed] at hpending
    have hclear : u.escapeArmed = false := Bool.eq_false_iff.mpr harmed
    cases rem with
    | nil => cases hpending
    | cons x rest =>
        rw [typed] at hpending
        by_cases hx : x = UART_ESCAPE_CHAR
        · -- the first copy only arms the escape
          rw [if_pos hx] at hpending
          obtain ⟨rfl, hline⟩ := List.cons.inj hpending
          refine ⟨{ u with escapeArmed := true }, ?_, ?_⟩
          · rw [Uart.receive, if_neg harmed, if_pos hx]
            rfl
          · refine ⟨⟨h.range.head_lt, h.range.tail_lt⟩, ch :: rest, hmessage, ?_⟩
            rw [Pending, if_pos rfl, hline, hx]
            exact ⟨rest, rfl, rfl⟩
        · rw [if_neg hx] at hpending
          obtain ⟨rfl, hline⟩ := List.cons.inj hpending
          refine ⟨u.rxPush ch, ?_, hpush u ch rest h.range rfl hclear rfl hline⟩
          rw [Uart.receive, if_neg harmed, if_neg hx]
          rfl

/-- One read of the terminal. -/
theorem receiving_chunk {message later out : List Byte} {u : Uart} (chunk : List Byte)
    (h : Receiving message (chunk ++ later) out u) (hroom : NeverFull u chunk) :
    ∃ u', u.receive chunk = some u' ∧ Receiving message later out u' := by
  induction chunk generalizing u with
  | nil => exact ⟨u, rfl, h⟩
  | cons ch rest ih =>
      obtain ⟨u', hbyte, hu'⟩ := receiving_byte h hroom.1
      have hroom' := hroom.2
      rw [hbyte] at hroom'
      obtain ⟨u'', hrest, hu''⟩ := ih hu' hroom'
      refine ⟨u'', ?_, hu''⟩
      rw [receive_cons, hbyte]
      exact hrest

/-! ## Runs -/

/-- What can happen to the UART. -/
inductive Event
  /-- The vmm polls the terminal. -/
  | poll
  /-- The guest reads the register at an address. -/
  | read (addr : Word)
  | write (addr : Word) (size : AccessSize) (value : DWord)

/-- Whether a read takes a byte off the fifo. -/
def TakesByte (vm : Vm) (addr : Word) : Prop :=
  addr = UART_16550_BASE ∧ vm.uart.lcr &&& UART_LCR_DLAB = 0 ∧ vm.uart.rxEmpty = false

instance (vm : Vm) (addr : Word) : Decidable (TakesByte vm addr) :=
  inferInstanceAs (Decidable (_ ∧ _ ∧ _))

/-- An event with what the guest obtains from a non-empty fifo by it. -/
def Event.run : Event → VmM (List Byte)
  | .poll => do
      uartPollInput
      pure []
  | .read addr => do
      let vm ← get
      let value ← uartMmioRead addr
      pure (if TakesByte vm addr then [value.setWidth 8] else [])
  | .write addr size value => do
      uartMmioWrite addr size value
      pure []

/-- A run with everything the guest obtains in it. -/
def runEvents : List Event → VmM (List Byte)
  | [] => pure []
  | event :: rest => do
      let out ← event.run
      let more ← runEvents rest
      pure (out ++ more)

/-- The bytes the next poll reads. -/
def nextChunk (vm : Vm) : List Byte :=
  if vm.uart.consoleAttached then (vm.hostInput.headD []).take 64 else []

/-- No byte meets a full queue, and the guest does not reset the fifo. -/
def Event.Allowed (vm : Vm) : Event → Prop
  | .poll => NeverFull vm.uart (nextChunk vm)
  | .read _ => True
  | .write addr size value =>
      ¬(size = .b1 ∧ addr = UART_16550_BASE + 2 ∧ (value.setWidth 8 : Byte) &&& 0x2 ≠ 0)

def AllAllowed : List Event → Vm → Prop
  | [], _ => True
  | event :: rest, vm => event.Allowed vm ∧ AllAllowed rest (finalState (event.run vm))

/-- The invariant of a run: `out` has been obtained so far. -/
abbrev Intact (message out : List Byte) (vm : Vm) : Prop :=
  Receiving message vm.hostInput.flatten out vm.uart

theorem receiving_congr {message line out : List Byte} {u u' : Uart}
    (h : Receiving message line out u) (hfifo : u'.rxFifo = u.rxFifo) (hhead : u'.rxHead = u.rxHead)
    (htail : u'.rxTail = u.rxTail) (harmed : u'.escapeArmed = u.escapeArmed) :
    Receiving message line out u' := by
  obtain ⟨rem, hmessage, hpending⟩ := h.split
  refine ⟨⟨?_, ?_⟩, rem, ?_, ?_⟩
  · rw [hhead]
    exact h.range.head_lt
  · rw [htail]
    exact h.range.tail_lt
  · rw [queued, hfifo, hhead, htail]
    exact hmessage
  · rw [harmed]
    exact hpending

theorem intact_poll {message out : List Byte} {vm : Vm} (h : Intact message out vm)
    (hroom : NeverFull vm.uart (nextChunk vm)) :
    ∃ t, uartPollInput vm = .ok () t ∧ Intact message out t := by
  unfold nextChunk at hroom
  unfold uartPollInput
  by_cases hattached : vm.uart.consoleAttached = true
  · cases hinput : vm.hostInput with
    | nil =>
        refine ⟨vm, ?_, h⟩
        rw [bind_apply_ok (get_apply vm), if_neg (by simpa using hattached), hinput]
        rfl
    | cons waiting later =>
        rw [if_pos hattached, hinput] at hroom
        have hsplit : waiting.take 64 ++ (waiting.drop 64 ++ later.flatten) =
            vm.hostInput.flatten := by
          rw [hinput, List.flatten_cons, ← List.append_assoc, List.take_append_drop]
        have hline : Receiving message (waiting.take 64 ++ (waiting.drop 64 ++ later.flatten)) out
            vm.uart := by
          rw [hsplit]
          exact h
        obtain ⟨u, hreceive, hu⟩ := receiving_chunk (waiting.take 64) hline hroom
        have hrest : (if (waiting.drop 64).isEmpty then later else waiting.drop 64 :: later).flatten =
            waiting.drop 64 ++ later.flatten := by
          split
          · rename_i hempty
            rw [List.isEmpty_iff.mp hempty, List.nil_append]
          · rfl
        refine ⟨{ vm with
          uart := u
          hostInput :=
            if (waiting.drop 64).isEmpty then later else waiting.drop 64 :: later }, ?_, ?_⟩
        · rw [bind_apply_ok (get_apply vm), if_neg (by simpa using hattached), hinput]
          simp only
          rw [hreceive]
          rfl
        · show Receiving message (List.flatten _) out u
          rw [hrest]
          exact hu
  · refine ⟨vm, ?_, h⟩
    rw [bind_apply_ok (get_apply vm), if_pos (by simpa using hattached)]
    rfl

/-- Only a data read of a non-empty fifo changes the UART. -/
theorem readReg_snd {u : Uart} {reg : Nat}
    (h : ¬(reg = 0 ∧ u.lcr &&& UART_LCR_DLAB = 0 ∧ u.rxEmpty = false)) : (u.readReg reg).2 = u := by
  unfold Uart.readReg
  split
  · split
    · rfl
    · rename_i hdlab
      rw [Uart.rxPop, if_pos]
      by_contra hne
      exact h ⟨rfl, not_not.mp hdlab, Bool.eq_false_iff.mpr hne⟩
  all_goals rfl

theorem uartMmioRead_apply (addr : Word) (vm : Vm) :
    uartMmioRead addr vm = .ok ((vm.uart.readReg (addr - UART_16550_BASE).toNat).1.setWidth 64)
      { vm with
        uart := (vm.uart.readReg (addr - UART_16550_BASE).toNat).2
        plic := vm.plic.setPending PLIC_IRQ_UART0
          (vm.uart.readReg (addr - UART_16550_BASE).toNat).2.interruptPending } := rfl

theorem intact_read {message out : List Byte} {vm : Vm} (h : Intact message out vm) (addr : Word) :
    ∃ obtained t, (Event.read addr).run vm = .ok obtained t ∧
      Intact message (out ++ obtained) t := by
  refine ⟨_, _, rfl, ?_⟩
  show Receiving message vm.hostInput.flatten
    (out ++ if TakesByte vm addr then
      [((vm.uart.readReg (addr - UART_16550_BASE).toNat).1.setWidth 64).setWidth 8] else [])
    (vm.uart.readReg (addr - UART_16550_BASE).toNat).2
  by_cases htakes : TakesByte vm addr
  · obtain ⟨rfl, hdlab, hne⟩ := htakes
    have hzero : (UART_16550_BASE - UART_16550_BASE).toNat = 0 := by decide
    have hpop : vm.uart.readReg 0 = vm.uart.rxPop := by
      rw [Uart.readReg, if_neg (not_not.mpr hdlab)]
    obtain ⟨hrange, hqueued, harmed⟩ := rxPop_spec h.range hne
    obtain ⟨rem, hmessage, hpending⟩ := h.split
    rw [if_pos ⟨rfl, hdlab, hne⟩, hzero, hpop]
    refine ⟨hrange, rem, ?_, ?_⟩
    · rw [hmessage, hqueued, BitVec.setWidth_setWidth_of_le _ (by decide), BitVec.setWidth_eq]
      simp only [List.append_assoc, List.cons_append, List.nil_append]
    · rw [harmed]
      exact hpending
  · have hsame : (vm.uart.readReg (addr - UART_16550_BASE).toNat).2 = vm.uart := by
      apply readReg_snd
      rintro ⟨hreg, hdlab, hne⟩
      apply htakes
      refine ⟨?_, hdlab, hne⟩
      have hdiff : addr - UART_16550_BASE = 0 := BitVec.eq_of_toNat_eq hreg
      rw [BitVec.sub_eq_iff_eq_add] at hdiff
      rw [hdiff]
      decide
    rw [if_neg htakes, List.append_nil, hsame]
    exact h

/-- A register write that does not reset the fifo leaves the queue alone. -/
theorem writeReg_snd {u : Uart} {reg : Nat} {val : Byte} (h : ¬(reg = 2 ∧ val &&& 0x2 ≠ 0)) :
    (u.writeReg reg val).2.rxFifo = u.rxFifo ∧ (u.writeReg reg val).2.rxHead = u.rxHead ∧
      (u.writeReg reg val).2.rxTail = u.rxTail ∧
      (u.writeReg reg val).2.escapeArmed = u.escapeArmed := by
  unfold Uart.writeReg
  split
  · split <;> exact ⟨rfl, rfl, rfl, rfl⟩
  · simp only
    split <;> exact ⟨rfl, rfl, rfl, rfl⟩
  · have hkeep : ¬val &&& 0x2 ≠ 0 := fun hne => h ⟨rfl, hne⟩
    simp only
    rw [if_neg hkeep]
    exact ⟨rfl, rfl, rfl, rfl⟩
  all_goals exact ⟨rfl, rfl, rfl, rfl⟩

theorem intact_write {message out : List Byte} {vm : Vm} (h : Intact message out vm) {addr : Word}
    {size : AccessSize} {value : DWord} (hallowed : (Event.write addr size value).Allowed vm) :
    ∃ t, uartMmioWrite addr size value vm = .ok () t ∧ Intact message out t := by
  unfold uartMmioWrite
  by_cases hsize : size = .b1
  · rw [if_neg (not_not.mpr hsize)]
    refine ⟨_, rfl, ?_⟩
    have hkeep : ¬((addr - UART_16550_BASE).toNat = 2 ∧ (value.setWidth 8 : Byte) &&& 0x2 ≠ 0) := by
      rintro ⟨hreg, hreset⟩
      refine hallowed ⟨hsize, ?_, hreset⟩
      have hdiff : addr - UART_16550_BASE = 2 := BitVec.eq_of_toNat_eq hreg
      rw [BitVec.sub_eq_iff_eq_add] at hdiff
      rw [hdiff, BitVec.add_comm]
    obtain ⟨hfifo, hhead, htail, harmed⟩ := writeReg_snd (u := vm.uart) hkeep
    exact receiving_congr h hfifo hhead htail harmed
  · rw [if_pos hsize]
    exact ⟨vm, rfl, h⟩

theorem intact_event {message out : List Byte} {vm : Vm} (h : Intact message out vm)
    (event : Event) (hallowed : event.Allowed vm) :
    ∃ obtained t, event.run vm = .ok obtained t ∧ Intact message (out ++ obtained) t := by
  cases event with
  | poll =>
      obtain ⟨t, ht, hintact⟩ := intact_poll h hallowed
      refine ⟨[], t, ?_, ?_⟩
      · rw [Event.run, bind_apply_ok ht]
        rfl
      · rw [List.append_nil]
        exact hintact
  | read addr => exact intact_read h addr
  | write addr size value =>
      obtain ⟨t, ht, hintact⟩ := intact_write h hallowed
      refine ⟨[], t, ?_, ?_⟩
      · rw [Event.run, bind_apply_ok ht]
        rfl
      · rw [List.append_nil]
        exact hintact

theorem intact_runEvents {message out : List Byte} {vm : Vm} (h : Intact message out vm)
    (events : List Event) (hallowed : AllAllowed events vm) :
    ∃ obtained t, runEvents events vm = .ok obtained t ∧ Intact message (out ++ obtained) t := by
  induction events generalizing out vm with
  | nil =>
      refine ⟨[], vm, rfl, ?_⟩
      rw [List.append_nil]
      exact h
  | cons event rest ih =>
      obtain ⟨obtained, t, hrun, ht⟩ := intact_event h event hallowed.1
      have hrest := hallowed.2
      rw [hrun] at hrest
      obtain ⟨more, t', hmore, ht'⟩ := ih ht hrest
      refine ⟨obtained ++ more, t', ?_, ?_⟩
      · rw [runEvents, bind_apply_ok hrun, bind_apply_ok hmore]
        rfl
      · rw [← List.append_assoc]
        exact ht'

/-! ## What the guest observes -/

/-- A machine on which nothing has been received yet. -/
structure Fresh (vm : Vm) : Prop where
  head_lt : vm.uart.rxHead < UART_RX_FIFO_SIZE
  empty : vm.uart.rxTail = vm.uart.rxHead
  unarmed : vm.uart.escapeArmed = false

/-- The line status register shows data exactly when a byte is queued. -/
def DataReadyExact (vm : Vm) : Prop :=
  ∃ value t, uartMmioRead (UART_16550_BASE + 5) vm = .ok value t ∧
    (value.getLsbD 0 = true ↔ queued vm.uart ≠ [])

theorem dataReadyExact {vm : Vm} (h : InRange vm.uart) : DataReadyExact vm := by
  have hreg : (UART_16550_BASE + 5 - UART_16550_BASE).toNat = 5 := by decide
  refine ⟨_, _, uartMmioRead_apply _ _, ?_⟩
  rw [hreg, Ne, queued_eq_nil_iff h]
  show ((if vm.uart.rxEmpty then UART_LSR_TEMT ||| UART_LSR_THRE
    else UART_LSR_TEMT ||| UART_LSR_THRE ||| UART_LSR_DR).setWidth 64).getLsbD 0 = true ↔ _
  cases vm.uart.rxEmpty with
  | true => decide
  | false => decide

/--
Console input reaches the guest intact: whatever has been obtained from a
non-empty fifo, followed by what is queued, is the message once all of it has
been read from the terminal.
-/
theorem console_intact {vm : Vm} (hfresh : Fresh vm) (message : List Byte)
    (hline : vm.hostInput.flatten = typed message) (events : List Event)
    (hallowed : AllAllowed events vm) :
    ∃ obtained t, runEvents events vm = .ok obtained t ∧
      t.uart.rxHead < UART_RX_FIFO_SIZE ∧ t.uart.rxTail < UART_RX_FIFO_SIZE ∧ DataReadyExact t ∧
      (t.hostInput.flatten = [] → obtained ++ queued t.uart = message) := by
  have hrange : InRange vm.uart := by
    refine ⟨hfresh.head_lt, ?_⟩
    rw [hfresh.empty]
    exact hfresh.head_lt
  have hqueued : queued vm.uart = [] := by
    rw [queued_eq_nil_iff hrange, Uart.rxEmpty, hfresh.empty, beq_self_eq_true]
  have hstart : Intact message [] vm := by
    refine ⟨hrange, message, ?_, ?_⟩
    · rw [hqueued, List.nil_append, List.nil_append]
    · rw [Pending, hfresh.unarmed]
      exact hline
  obtain ⟨obtained, t, hrun, ht⟩ := intact_runEvents hstart events hallowed
  refine ⟨obtained, t, hrun, ht.range.head_lt, ht.range.tail_lt, dataReadyExact ht.range, ?_⟩
  intro hdrained
  obtain ⟨rem, hmessage, hpending⟩ := ht.split
  rw [hdrained] at hpending
  rw [hmessage, hpending.nil, List.append_nil, List.nil_append]

/-- The two copies of an escape character arrive in different reads. -/
def splitEscapeVm : Vm :=
  { virtualMachineInit (fun _ => 0) fun _ => 0 with hostInput := [[0x61, 0x01], [0x01, 0x62]] }

/-- The guest reads between the two halves of the message. -/
def splitEscapeEvents : List Event :=
  [.poll, .read 0x10000000, .read 0x10000000, .poll, .read 0x10000000]

theorem console_intact_split_escape :
    ∃ obtained t, runEvents splitEscapeEvents splitEscapeVm = .ok obtained t ∧
      t.hostInput = [] ∧ obtained ++ queued t.uart = [0x61, 0x01, 0x62] := by
  have hallowed : AllAllowed splitEscapeEvents splitEscapeVm := by
    refine ⟨?_, trivial, trivial, ?_, trivial, trivial⟩
    · show NeverFull _ _
      decide +kernel
    · show NeverFull _ _
      decide +kernel
  have hfresh : Fresh splitEscapeVm := ⟨by decide, rfl, rfl⟩
  obtain ⟨obtained, t, hrun, -, -, -, hall⟩ :=
    console_intact hfresh [0x61, 0x01, 0x62] (by decide) splitEscapeEvents hallowed
  have hdrained : (finalState (runEvents splitEscapeEvents splitEscapeVm)).hostInput = [] := by
    decide +kernel
  rw [hrun] at hdrained
  refine ⟨obtained, t, hrun, hdrained, hall ?_⟩
  show List.flatten t.hostInput = []
  rw [show t.hostInput = [] from hdrained]
  rfl

end Zelda.Proofs.ConsoleInput
