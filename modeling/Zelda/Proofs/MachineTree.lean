import Zelda.Proofs.TreeRefusal
import Zelda.Vmm.FdtNodes
import Mathlib.Algebra.Order.BigOperators.Group.List
/-!
# The device tree of every configuration

`fdt_init` gives handles out while it writes.  What it writes is one tree, with
the handles numbered in the order of the nodes: the interrupt controller of the
platform, the harts, the local interrupt controllers.
-/

namespace Zelda.Proofs.MachineTree

open Zelda.Vmm
open Zelda.Vmm.TreeBuild
open Zelda.Lib.ByteBuffer
open Zelda.Proofs.DeviceTree
open Zelda.Proofs.TreeRefusal

/-! ## Trees in parts -/

def append : Forest → Forest → Forest
  | .nil, g => g
  | .node name items rest, g => .node name items (append rest g)
  | .prop name value rest, g => .prop name value (append rest g)
  | .nop rest, g => .nop (append rest g)

/-- Trees one behind the other. -/
def concat : List Forest → Forest
  | [] => .nil
  | f :: fs => append f (concat fs)

/-- One property. -/
def leaf (name : CString) (value : List Byte) : Forest :=
  .prop name value .nil

/-- One node. -/
def node (name : CString) (items : List Forest) : Forest :=
  .node name (concat items) .nil

theorem tokens_append (f g : Forest) : (append f g).tokens = f.tokens ++ g.tokens := by
  induction f with
  | nil => rfl
  | node name items rest _ ih =>
      simp only [append, Forest.tokens, ih, List.cons_append, List.append_assoc]
  | prop name value rest ih => rw [append, Forest.tokens, Forest.tokens, ih, List.cons_append]
  | nop rest ih => rw [append, Forest.tokens, Forest.tokens, ih, List.cons_append]

theorem tokens_concat (fs : List Forest) : (concat fs).tokens = fs.flatMap Forest.tokens := by
  induction fs with
  | nil => rfl
  | cons f fs ih => rw [concat, tokens_append, ih, List.flatMap_cons]

@[simp] theorem tokens_leaf (name : CString) (value : List Byte) :
    (leaf name value).tokens = [.prop name value] := rfl

@[simp] theorem tokens_node (name : CString) (items : List Forest) :
    (node name items).tokens =
      .beginNode name :: (items.flatMap Forest.tokens ++ [.endNode]) := by
  rw [node, Forest.tokens, tokens_concat]
  rfl

/-! ## The tree -/

/-- The handle of the platform's interrupt controller. -/
def plicHandle : Word := 1

/-- The handle of a hart. -/
def hartHandle (idx : Nat) : Word :=
  2 + BitVec.ofNat 32 idx

/-- The handle of a hart's local interrupt controller. -/
def controllerHandle (nrHarts idx : Nat) : Word :=
  2 + BitVec.ofNat 32 nrHarts + BitVec.ofNat 32 idx

def bootromNode (config : TreeConfig) : Forest :=
  node (hexName (literal "bootrom@") config.romStart)
    [leaf (literal "device_type") (literal "bootrom").stored,
      leaf (literal "compatible") (literal "zelda 16MB flash").stored,
      leaf (literal "reg") (cells [0, config.romStart, 0, config.romSize])]

def initrdProps (config : TreeConfig) : List Forest :=
  match config.initrd with
  | none => []
  | some (start, size) =>
      [leaf (literal "linux,initrd-end") (cells [start + size]),
        leaf (literal "linux,initrd-start") (cells [start])]

def chosenNode (config : TreeConfig) : Forest :=
  node (literal "chosen")
    (initrdProps config ++
      [leaf (literal "bootargs") config.bootarg.stored,
        leaf (literal "stdout-path") (hexName (literal "/uart@") UART_16550_BASE).stored])

def uartNode : Forest :=
  node (hexName (literal "uart@") UART_16550_BASE)
    [leaf (literal "interrupts") (cells [BitVec.ofNat 32 PLIC_IRQ_UART0]),
      leaf (literal "interrupt-parent") (cells [plicHandle]),
      leaf (literal "clock-frequency") (cells [0x00384000]),
      leaf (literal "reg-shift") (cells [0]),
      leaf (literal "reg-io-width") (cells [1]),
      leaf (literal "compatible") (literal "ns16550a").stored,
      leaf (literal "reg") (cells [0, UART_16550_BASE, 0, 0x100])]

def memoryNode (config : TreeConfig) : Forest :=
  node (hexName (literal "memory@") (config.mainMemBase.setWidth 32))
    [leaf (literal "device_type") (literal "memory").stored,
      leaf (literal "reg")
        (cells [0, config.mainMemBase.setWidth 32, 0, config.mainMemSize.setWidth 32])]

def coreNode (idx : Nat) : Forest :=
  node (decName (literal "core") idx) [leaf (literal "cpu") (cells [hartHandle idx])]

def controllerNode (nrHarts idx : Nat) : Forest :=
  node (literal "interrupt-controller")
    [leaf (literal "#interrupt-cells") (cells [1]),
      leaf (literal "interrupt-controller") [],
      leaf (literal "phandle") (cells [controllerHandle nrHarts idx]),
      leaf (literal "compatible") (literal "riscv,cpu-intc").stored]

def hartNode (nrHarts idx : Nat) : Forest :=
  node (decName (literal "cpu@") idx)
    [leaf (literal "phandle") (cells [hartHandle idx]),
      leaf (literal "device_type") (literal "cpu").stored,
      leaf (literal "status") (literal "okay").stored,
      leaf (literal "compatible") (literal "riscv").stored,
      leaf (literal "riscv,isa") (literal "rv32ima").stored,
      leaf (literal "mmu-type") (literal "riscv,sv32").stored,
      leaf (literal "reg") (cells [BitVec.ofNat 32 idx]),
      controllerNode nrHarts idx]

def cpusNode (config : TreeConfig) : Forest :=
  node (literal "cpus")
    ([leaf (literal "#address-cells") (cells [1]),
      leaf (literal "#size-cells") (cells [0]),
      leaf (literal "timebase-frequency") (cells [CLINT_TIMEBASE_FREQUENCY]),
      node (literal "cpu-map")
        [node (literal "cluster0") ((List.range config.nrHarts).map coreNode)]] ++
      (List.range config.nrHarts).map (hartNode config.nrHarts))

/-- Two interrupts of every local controller. -/
def extendedCells (first second : Word) (nrHarts : Nat) : List Byte :=
  cells ((List.range nrHarts).flatMap fun idx =>
    [controllerHandle nrHarts idx, first, controllerHandle nrHarts idx, second])

def clintNode (config : TreeConfig) : Forest :=
  node (hexName (literal "clint@") config.clintBase)
    [leaf (literal "reg") (cells [0, config.clintBase, 0, config.clintSize]),
      leaf (literal "compatible") (literal "riscv,clint0").stored,
      leaf (literal "interrupts-extended") (extendedCells 3 7 config.nrHarts)]

def plicNode (config : TreeConfig) : Forest :=
  node (hexName (literal "plic@") config.plicBase)
    [leaf (literal "phandle") (cells [plicHandle]),
      leaf (literal "compatible") (literal "riscv,plic0").stored,
      leaf (literal "interrupt-controller") [],
      leaf (literal "#interrupt-cells") (cells [1]),
      leaf (literal "#address-cells") (cells [0]),
      leaf (literal "riscv,ndev") (cells [BitVec.ofNat 32 (PLIC_NR_SOURCES - 1)]),
      leaf (literal "reg") (cells [0, config.plicBase, 0, config.plicSize]),
      leaf (literal "interrupts-extended") (extendedCells 0xb 9 config.nrHarts)]

def sysconNode : Forest :=
  node (hexName (literal "test@") SYSCON_BASE_DEFAULT)
    [leaf (literal "compatible") (literal "sifive,test0").stored,
      leaf (literal "reg") (cells [0, SYSCON_BASE_DEFAULT, 0, SYSCON_SIZE])]

def socNode (config : TreeConfig) : Forest :=
  node (literal "soc")
    [leaf (literal "#address-cells") (cells [2]),
      leaf (literal "#size-cells") (cells [2]),
      leaf (literal "compatible") (literal "simple-bus").stored,
      leaf (literal "ranges") [],
      clintNode config, plicNode config, sysconNode]

/-- The tree `fdt_init` describes a configuration by. -/
def deviceTree (config : TreeConfig) : Forest :=
  node (literal "")
    [leaf (literal "#address-cells") (cells [2]),
      leaf (literal "#size-cells") (cells [2]),
      leaf (literal "compatible") (literal "riscv-virtio").stored,
      leaf (literal "model") (literal "riscv-virtio,qemu").stored,
      bootromNode config, chosenNode config, uartNode, memoryNode config, cpusNode config,
      socNode config]

/-! ## What the builders emit -/

/-- From the handles `h`, a builder emits `tokens` and leaves the handles `h'`. -/
def Emits (build : TreeBuild → Except Abort TreeBuild) (h : Phandles) (tokens : List Token)
    (h' : Phandles) : Prop :=
  ∀ blob, build ⟨blob, h⟩ = (do
    let blob ← emitAll tokens blob
    pure ⟨blob, h'⟩)

section Emits

variable {build build' : TreeBuild → Except Abort TreeBuild} {h h' h'' : Phandles}
  {tokens tokens' : List Token}

theorem Emits.bind (hfirst : Emits build h tokens h') (hnext : Emits build' h' tokens' h'') :
    Emits (fun s => build s >>= build') h (tokens ++ tokens') h'' := by
  intro blob
  change (build ⟨blob, h⟩ >>= build') = _
  rw [hfirst blob, emitAll_append]
  cases hemit : emitAll tokens blob with
  | error e => rfl
  | ok blob => exact hnext blob

theorem Emits.of_eq (hemits : Emits build h tokens h') (heq : tokens' = tokens) :
    Emits build h tokens' h' :=
  heq ▸ hemits

theorem emits_pure : Emits pure h [] h :=
  fun _ => rfl

theorem emits_beginNode (name : CString) : Emits (beginNode name) h [.beginNode name] h := by
  intro blob
  simp only [beginNode, emitAll, Token.emit, bind_pure]

theorem emits_prop (name : CString) (value : List Byte) :
    Emits (prop name value) h [.prop name value] h := by
  intro blob
  simp only [prop, emitAll, Token.emit, bind_pure]

theorem emits_endNode : Emits endNode h [.endNode] h := by
  intro blob
  simp only [endNode, emitAll, Token.emit, bind_pure]

/-- The rounds of a loop, with the handles before each. -/
theorem emits_forHarts {body : Nat → TreeBuild → Except Abort TreeBuild}
    (before : Nat → Phandles) (items : Nat → Forest) {n : Nat}
    (hbody : ∀ idx < n, Emits (body idx) (before idx) (items idx).tokens (before (idx + 1))) :
    Emits (forHarts body n) (before 0) (((List.range n).map items).flatMap Forest.tokens)
      (before n) := by
  induction n with
  | zero => exact emits_pure
  | succ n ih =>
      have hfront := ih fun idx hidx => hbody idx (hidx.trans (Nat.lt_succ_self n))
      rw [List.range_succ, List.map_append, List.flatMap_append]
      simp only [List.map_cons, List.map_nil, List.flatMap_cons, List.flatMap_nil, List.append_nil]
      exact hfront.bind (hbody n (Nat.lt_succ_self n))

end Emits

/-! ## The handles -/

/-- The handles when so many harts and so many of their controllers have theirs. -/
def handlesAt (harts controllers : Nat) : Phandles where
  hartsPhandles := fun i => if i < harts then hartHandle i else 0
  hartInterruptControllersPhandles := fun i =>
    if i < controllers then controllerHandle harts i else 0
  phandleGenerator := 2 + BitVec.ofNat 32 harts + BitVec.ofNat 32 controllers
  plicPhandle := plicHandle

theorem update_lt {n : Nat} (f : Nat → Word) :
    Function.update (fun i => if i < n then f i else 0) n (f n) =
      fun i => if i < n + 1 then f i else 0 := by
  funext i
  by_cases hi : i = n
  · rw [hi, Function.update_self, if_pos (Nat.lt_succ_self n)]
  · rw [Function.update_of_ne hi]
    congr 1
    exact propext (by omega)

theorem generatePhandle_hart (blob : FdtBuildBlob) (idx : Nat) :
    generatePhandle (fun phandle h =>
        { h with hartsPhandles := Function.update h.hartsPhandles idx phandle })
      ⟨blob, handlesAt idx 0⟩ = ⟨blob, handlesAt (idx + 1) 0⟩ := by
  have hhandle : 2 + BitVec.ofNat 32 idx + BitVec.ofNat 32 0 = hartHandle idx :=
    BitVec.add_zero _
  have hnext : hartHandle idx + 1 = 2 + BitVec.ofNat 32 (idx + 1) + BitVec.ofNat 32 0 := by
    rw [hartHandle, BitVec.ofNat_add, BitVec.add_assoc]
    exact (BitVec.add_zero _).symm
  simp only [generatePhandle, handlesAt, hhandle, hnext, update_lt hartHandle, Nat.not_lt_zero,
    if_false]

theorem generatePhandle_controller (blob : FdtBuildBlob) (n idx : Nat) :
    generatePhandle (fun phandle h =>
        { h with
          hartInterruptControllersPhandles :=
            Function.update h.hartInterruptControllersPhandles idx phandle })
      ⟨blob, handlesAt n idx⟩ = ⟨blob, handlesAt n (idx + 1)⟩ := by
  have hhandle : 2 + BitVec.ofNat 32 n + BitVec.ofNat 32 idx = controllerHandle n idx := rfl
  have hnext : controllerHandle n idx + 1 =
      2 + BitVec.ofNat 32 n + BitVec.ofNat 32 (idx + 1) := by
    rw [controllerHandle, BitVec.ofNat_add, BitVec.add_assoc]
    rfl
  simp only [generatePhandle, handlesAt, hhandle, hnext, update_lt (controllerHandle n)]

theorem interruptsExtended_handlesAt (first second : Word) (n : Nat) :
    cells (interruptsExtended first second (handlesAt n n) n) = extendedCells first second n := by
  unfold interruptsExtended extendedCells
  congr 1
  apply List.flatMap_congr
  intro idx hidx
  simp only [handlesAt, if_pos (List.mem_range.mp hidx)]

/-! ## The nodes -/

section Nodes

variable (config : TreeConfig) (h : Phandles)

@[simp] theorem beginNode_mk (name : CString) (blob : FdtBuildBlob) :
    beginNode name ⟨blob, h⟩ = fdtBeginNode blob name >>= fun blob => pure ⟨blob, h⟩ := rfl

@[simp] theorem prop_mk (name : CString) (value : List Byte) (blob : FdtBuildBlob) :
    prop name value ⟨blob, h⟩ =
      fdtProp blob name (BitVec.ofNat 32 value.length) value >>= fun blob => pure ⟨blob, h⟩ := rfl

@[simp] theorem endNode_mk (blob : FdtBuildBlob) :
    endNode ⟨blob, h⟩ = fdtEndNode blob >>= fun blob => pure ⟨blob, h⟩ := rfl

@[simp] theorem emitAll_nil (blob : FdtBuildBlob) : emitAll [] blob = pure blob := rfl

@[simp] theorem emitAll_cons (token : Token) (tokens : List Token) (blob : FdtBuildBlob) :
    emitAll (token :: tokens) blob = token.emit blob >>= emitAll tokens := rfl

@[simp] theorem emit_beginNode (name : CString) (blob : FdtBuildBlob) :
    (Token.beginNode name).emit blob = fdtBeginNode blob name := rfl

@[simp] theorem emit_prop (name : CString) (value : List Byte) (blob : FdtBuildBlob) :
    (Token.prop name value).emit blob =
      fdtProp blob name (BitVec.ofNat 32 value.length) value := rfl

@[simp] theorem emit_endNode (blob : FdtBuildBlob) : Token.endNode.emit blob = fdtEndNode blob :=
  rfl

theorem emits_bootrom : Emits (buildBootromFdtNode config) h (bootromNode config).tokens h := by
  intro blob
  simp [buildBootromFdtNode, bootromNode]

theorem emits_memory : Emits (buildMemoryFdtNode config) h (memoryNode config).tokens h := by
  intro blob
  simp [buildMemoryFdtNode, memoryNode]

theorem emits_syscon : Emits buildSysconFdtNode h sysconNode.tokens h := by
  intro blob
  simp [buildSysconFdtNode, sysconNode]

theorem emits_initrd :
    Emits (buildInitrdProps config) h ((initrdProps config).flatMap Forest.tokens) h := by
  intro blob
  unfold buildInitrdProps initrdProps
  cases config.initrd with
  | none => rfl
  | some initrd => simp

theorem emits_uart (hplic : h.plicPhandle = plicHandle) :
    Emits buildUartFdtNode h uartNode.tokens h := by
  intro blob
  simp [buildUartFdtNode, uartNode, hplic]

theorem emits_core (idx : Nat) :
    Emits (buildCoreNode idx) (handlesAt idx 0) (coreNode idx).tokens (handlesAt (idx + 1) 0) := by
  intro blob
  have hhandle : (handlesAt (idx + 1) 0).hartsPhandles idx = hartHandle idx :=
    if_pos (Nat.lt_succ_self idx)
  simp [buildCoreNode, coreNode, generatePhandle_hart, hhandle]

theorem emits_hart {n idx : Nat} (hidx : idx < n) :
    Emits (buildHartNode idx) (handlesAt n idx) (hartNode n idx).tokens
      (handlesAt n (idx + 1)) := by
  intro blob
  have hhart : (handlesAt n idx).hartsPhandles idx = hartHandle idx := if_pos hidx
  have hcontroller : (handlesAt n (idx + 1)).hartInterruptControllersPhandles idx =
      controllerHandle n idx := if_pos (Nat.lt_succ_self idx)
  simp [buildHartNode, hartNode, controllerNode, generatePhandle_controller, hhart, hcontroller]

theorem emits_clint :
    Emits (buildClintFdtNode config) (handlesAt config.nrHarts config.nrHarts)
      (clintNode config).tokens (handlesAt config.nrHarts config.nrHarts) := by
  intro blob
  simp [buildClintFdtNode, clintNode, interruptsExtended_handlesAt]

theorem emits_plic :
    Emits (buildPlicFdtNode config) (handlesAt config.nrHarts config.nrHarts)
      (plicNode config).tokens (handlesAt config.nrHarts config.nrHarts) := by
  intro blob
  have hplic : (handlesAt config.nrHarts config.nrHarts).plicPhandle = plicHandle := rfl
  simp [buildPlicFdtNode, plicNode, interruptsExtended_handlesAt, hplic]

theorem emits_chosen : Emits (buildChosenFdtNode config) h (chosenNode config).tokens h := by
  unfold buildChosenFdtNode
  refine Emits.of_eq ((emits_beginNode _).bind <| (emits_initrd config h).bind <|
    (emits_prop _ _).bind <| (emits_prop _ _).bind emits_endNode) ?_
  simp [chosenNode]

theorem emits_soc :
    Emits (buildSocFdtNode config) (handlesAt config.nrHarts config.nrHarts)
      (socNode config).tokens (handlesAt config.nrHarts config.nrHarts) := by
  unfold buildSocFdtNode
  refine Emits.of_eq ((emits_beginNode _).bind <| (emits_prop _ _).bind <| (emits_prop _ _).bind <|
    (emits_prop _ _).bind <| (emits_prop _ _).bind <| (emits_clint config).bind <|
    (emits_plic config).bind <| (emits_syscon _).bind emits_endNode) ?_
  rw [socNode, tokens_node]
  simp only [List.flatMap_cons, List.flatMap_nil, tokens_leaf, List.cons_append, List.nil_append,
    List.append_nil, List.append_assoc]

theorem emits_cpus :
    Emits (buildCpuFdtNode config) (handlesAt 0 0) (cpusNode config).tokens
      (handlesAt config.nrHarts config.nrHarts) := by
  have hcores := emits_forHarts (fun idx => handlesAt idx 0) coreNode
    fun idx (_ : idx < config.nrHarts) => emits_core idx
  have hharts := emits_forHarts (handlesAt config.nrHarts) (hartNode config.nrHarts)
    fun idx hidx => emits_hart hidx
  unfold buildCpuFdtNode
  refine Emits.of_eq ((emits_beginNode _).bind <| (emits_prop _ _).bind <| (emits_prop _ _).bind <|
    (emits_prop _ _).bind <| (emits_beginNode _).bind <| (emits_beginNode _).bind <|
    hcores.bind <| emits_endNode.bind <| emits_endNode.bind <| hharts.bind emits_endNode) ?_
  rw [cpusNode, tokens_node]
  simp only [List.flatMap_cons, List.flatMap_nil, tokens_leaf, tokens_node, List.cons_append,
    List.nil_append, List.append_nil, List.append_assoc]

theorem buildRootFdtNode_eq (blob : FdtBuildBlob) :
    buildRootFdtNode config ⟨blob, initialPhandles⟩ = (do
      let blob ← (deviceTree config).emit blob
      pure ⟨blob, handlesAt config.nrHarts config.nrHarts⟩) := by
  have hroot : Emits (fun s => do
      let s ← beginNode (literal "") s
      let s ← prop (literal "#address-cells") (cells [2]) s
      let s ← prop (literal "#size-cells") (cells [2]) s
      let s ← prop (literal "compatible") (literal "riscv-virtio").stored s
      let s ← prop (literal "model") (literal "riscv-virtio,qemu").stored s
      let s ← buildBootromFdtNode config s
      let s ← buildChosenFdtNode config s
      let s ← buildUartFdtNode s
      let s ← buildMemoryFdtNode config s
      let s ← buildCpuFdtNode config s
      let s ← buildSocFdtNode config s
      endNode s) (handlesAt 0 0) (deviceTree config).tokens
        (handlesAt config.nrHarts config.nrHarts) := by
    refine Emits.of_eq ((emits_beginNode _).bind <| (emits_prop _ _).bind <|
      (emits_prop _ _).bind <| (emits_prop _ _).bind <| (emits_prop _ _).bind <|
      (emits_bootrom config _).bind <| (emits_chosen config _).bind <| (emits_uart _ rfl).bind <|
      (emits_memory config _).bind <| (emits_cpus config).bind <|
      (emits_soc config).bind emits_endNode) ?_
    rw [deviceTree, tokens_node]
    simp only [List.flatMap_cons, List.flatMap_nil, tokens_leaf, List.cons_append, List.nil_append,
      List.append_nil, List.append_assoc]
  rw [emit_eq_emitAll]
  exact hroot blob

end Nodes

/-! ## The sizes -/

section Sizes

theorem structSize_append (f g : Forest) :
    (append f g).structSize = f.structSize + g.structSize := by
  rw [structSize_eq, tokens_append, List.map_append, List.sum_append, ← structSize_eq,
    ← structSize_eq]

theorem structSize_concat (fs : List Forest) :
    (concat fs).structSize = (fs.map Forest.structSize).sum := by
  induction fs with
  | nil => rfl
  | cons f fs ih => rw [concat, structSize_append, ih, List.map_cons, List.sum_cons]

theorem structSize_node (name : CString) (items : List Forest) :
    (node name items).structSize =
      (Token.beginNode name).size + (items.map Forest.structSize).sum + 4 := by
  rw [node, Forest.structSize, structSize_concat]
  rfl

theorem nameBytes_append (f g : Forest) :
    (append f g).nameBytes = f.nameBytes + g.nameBytes := by
  rw [nameBytes_eq, tokens_append, stringBytes, List.flatMap_append, List.length_append,
    nameBytes_eq, nameBytes_eq, stringBytes, stringBytes]

theorem nameBytes_concat (fs : List Forest) :
    (concat fs).nameBytes = (fs.map Forest.nameBytes).sum := by
  induction fs with
  | nil => rfl
  | cons f fs ih => rw [concat, nameBytes_append, ih, List.map_cons, List.sum_cons]

theorem nameBytes_node (name : CString) (items : List Forest) :
    (node name items).nameBytes = (items.map Forest.nameBytes).sum := by
  rw [node, Forest.nameBytes, nameBytes_concat]
  rfl

variable (config : TreeConfig)

/-- The bytes of the names of the ramdisk's properties. -/
def initrdNameBytes : Nat :=
  if config.initrd.isSome then 36 else 0

theorem initrdNameBytes_le : initrdNameBytes config ≤ 36 := by
  unfold initrdNameBytes
  split <;> omega

theorem nameBytes_chosenNode : (chosenNode config).nameBytes = 21 + initrdNameBytes config := by
  unfold chosenNode initrdProps initrdNameBytes
  rw [nameBytes_node]
  cases config.initrd with
  | none => rfl
  | some initrd => rfl

theorem nameBytes_cpusNode : (cpusNode config).nameBytes = 46 + 122 * config.nrHarts := by
  have hcore : ∀ idx, (coreNode idx).nameBytes = 4 := fun _ => rfl
  have hhart : ∀ idx, (hartNode config.nrHarts idx).nameBytes = 118 := fun _ => rfl
  have hcores : (((List.range config.nrHarts).map coreNode).map Forest.nameBytes).sum =
      4 * config.nrHarts := by
    simp [Function.comp_def, hcore, Nat.mul_comm]
  have hharts : (((List.range config.nrHarts).map (hartNode config.nrHarts)).map
      Forest.nameBytes).sum = 118 * config.nrHarts := by
    simp [Function.comp_def, hhart, Nat.mul_comm]
  have hmap : (node (literal "cpu-map") [node (literal "cluster0")
      ((List.range config.nrHarts).map coreNode)]).nameBytes = 4 * config.nrHarts := by
    rw [nameBytes_node, List.map_cons, List.map_nil, List.sum_cons, List.sum_nil, nameBytes_node,
      hcores, Nat.add_zero]
  have hprops : (leaf (literal "#address-cells") (cells [1])).nameBytes +
      ((leaf (literal "#size-cells") (cells [0])).nameBytes +
        (leaf (literal "timebase-frequency") (cells [CLINT_TIMEBASE_FREQUENCY])).nameBytes) =
          46 := rfl
  rw [cpusNode, nameBytes_node, List.map_append, List.sum_append, hharts]
  simp only [List.map_cons, List.map_nil, List.sum_cons, List.sum_nil, hmap]
  omega

/-- Every hart takes 122 bytes of the strings block. -/
theorem nameBytes_deviceTree :
    (deviceTree config).nameBytes =
      438 + 122 * config.nrHarts + initrdNameBytes config := by
  have hprops : (leaf (literal "#address-cells") (cells [2])).nameBytes +
      ((leaf (literal "#size-cells") (cells [2])).nameBytes +
        ((leaf (literal "compatible") (literal "riscv-virtio").stored).nameBytes +
          (leaf (literal "model") (literal "riscv-virtio,qemu").stored).nameBytes)) = 44 := rfl
  have hbootrom : (bootromNode config).nameBytes = 27 := rfl
  have huart : uartNode.nameBytes = 82 := rfl
  have hmemory : (memoryNode config).nameBytes = 16 := rfl
  have hsoc : (socNode config).nameBytes = 202 := rfl
  rw [deviceTree, nameBytes_node]
  simp only [List.map_cons, List.map_nil, List.sum_cons, List.sum_nil, hbootrom, huart, hmemory,
    hsoc, nameBytes_chosenNode, nameBytes_cpusNode]
  omega

omit config in
theorem size_beginNode_le (name : CString) : (Token.beginNode name).size ≤ name.strlen + 8 := by
  have hpadding := padding_le (4 + name.strlen + 1)
  rw [Token.size]
  omega

omit config in
theorem structSize_leaf_le (name : CString) (value : List Byte) :
    (leaf name value).structSize ≤ value.length + 15 := by
  have hpadding := padding_le (4 + FDT_PROPERTY_SIZE + value.length)
  rw [leaf, Forest.structSize, Token.size, Forest.structSize]
  unfold FDT_PROPERTY_SIZE at hpadding ⊢
  omega

omit config in
theorem strlen_hexName_le (stem : CString) (address : Word) :
    (hexName stem address).strlen ≤ stem.strlen + 8 := by
  have hdigits : (Nat.toDigits 16 address.toNat).length ≤ 8 :=
    (Nat.length_toDigits_le_iff (by decide) (by decide)).mpr address.isLt
  have hlength : (hexName stem address).strlen =
      stem.strlen + (Nat.toDigits 16 address.toNat).length := by
    simp only [hexName, numbered, CString.strlen, ascii, List.length_append, List.length_map]
  omega

omit config in
theorem strlen_decName_le (stem : CString) {id : Nat} (hid : id < 100) :
    (decName stem id).strlen ≤ stem.strlen + 2 := by
  have hdigits : (Nat.toDigits 10 id).length ≤ 2 :=
    (Nat.length_toDigits_le_iff (by decide) (by decide)).mpr hid
  have hlength : (decName stem id).strlen = stem.strlen + (Nat.toDigits 10 id).length := by
    simp only [decName, numbered, CString.strlen, ascii, List.length_append, List.length_map]
  omega

omit config in
@[simp] theorem length_cells (words : List Word) : (cells words).length = 4 * words.length := by
  induction words with
  | nil => rfl
  | cons word words ih =>
      rw [cells, List.flatMap_cons, List.length_append, length_wordBytes, List.length_cons]
      change 4 + (cells words).length = _
      omega

omit config in
@[simp] theorem length_extendedCells (first second : Word) (n : Nat) :
    (extendedCells first second n).length = 16 * n := by
  rw [extendedCells, length_cells, List.length_flatMap]
  simp
  omega

/-- A node with an address in its name, and its properties. -/
theorem structSize_hexNode_le (stem : CString) (address : Word) (items : List Forest) :
    (node (hexName stem address) items).structSize ≤
      stem.strlen + 20 + (items.map Forest.structSize).sum := by
  have hname := strlen_hexName_le stem address
  have hbegin := size_beginNode_le (hexName stem address)
  rw [structSize_node]
  omega

omit config in
@[simp] theorem structSize_leaf (name : CString) (value : List Byte) :
    (leaf name value).structSize = 12 + value.length + padding (12 + value.length) := rfl

omit config in
@[simp] theorem length_stored (s : CString) : s.stored.length = s.strlen + 1 := by
  rw [CString.stored, List.length_append, List.length_singleton]
  rfl

omit config in
@[simp] theorem strlen_literal (s : String) : (literal s).strlen = s.toList.length :=
  List.length_map ..

theorem structSize_bootromNode_le : (bootromNode config).structSize ≤ 108 := by
  unfold bootromNode
  refine (structSize_hexNode_le _ _ _).trans ?_
  simp [padding]

theorem structSize_memoryNode_le : (memoryNode config).structSize ≤ 76 := by
  unfold memoryNode
  refine (structSize_hexNode_le _ _ _).trans ?_
  simp [padding]

theorem structSize_uartNode_le : uartNode.structSize ≤ 160 := by
  unfold uartNode
  refine (structSize_hexNode_le _ _ _).trans ?_
  simp [padding]

theorem structSize_sysconNode_le : sysconNode.structSize ≤ 84 := by
  unfold sysconNode
  refine (structSize_hexNode_le _ _ _).trans ?_
  simp [padding]

theorem structSize_clintNode_le :
    (clintNode config).structSize ≤ 96 + 16 * config.nrHarts := by
  unfold clintNode
  refine (structSize_hexNode_le _ _ _).trans ?_
  simp [padding]
  omega

theorem structSize_plicNode_le :
    (plicNode config).structSize ≤ 168 + 16 * config.nrHarts := by
  unfold plicNode
  refine (structSize_hexNode_le _ _ _).trans ?_
  simp [padding]
  omega

omit config in
theorem structSize_node_le (name : CString) (items : List Forest) :
    (node name items).structSize ≤ name.strlen + 12 + (items.map Forest.structSize).sum := by
  have hbegin := size_beginNode_le name
  rw [structSize_node]
  omega

theorem sum_initrdProps_le : ((initrdProps config).map Forest.structSize).sum ≤ 32 := by
  unfold initrdProps
  cases config.initrd with
  | none => exact Nat.zero_le _
  | some initrd => simp [padding]

theorem structSize_chosenNode_le :
    (chosenNode config).structSize ≤ 100 + config.bootarg.strlen := by
  have hinitrd := sum_initrdProps_le config
  have hbootarg := structSize_leaf_le (literal "bootargs") config.bootarg.stored
  have hpath := structSize_leaf_le (literal "stdout-path")
    (hexName (literal "/uart@") UART_16550_BASE).stored
  have hname := strlen_hexName_le (literal "/uart@") UART_16550_BASE
  have hstem : (literal "/uart@").strlen = 6 := rfl
  rw [length_stored] at hbootarg hpath
  unfold chosenNode
  refine (structSize_node_le _ _).trans ?_
  rw [List.map_append, List.sum_append, show (literal "chosen").strlen = 6 from rfl]
  simp only [List.map_cons, List.map_nil, List.sum_cons, List.sum_nil]
  omega

omit config in
theorem structSize_coreNode_le (idx : Nat) (hidx : idx < 100) : (coreNode idx).structSize ≤ 34 := by
  have hname := strlen_decName_le (literal "core") hidx
  have hstem : (literal "core").strlen = 4 := rfl
  unfold coreNode
  refine (structSize_node_le _ _).trans ?_
  simp [padding] at hname ⊢
  omega

omit config in
theorem structSize_hartNode_le (n idx : Nat) (hidx : idx < 100) :
    (hartNode n idx).structSize ≤ 254 := by
  have hname := strlen_decName_le (literal "cpu@") hidx
  have hcontroller : (controllerNode n idx).structSize ≤ 104 := by
    unfold controllerNode
    refine (structSize_node_le _ _).trans ?_
    simp [padding]
  unfold hartNode
  refine (structSize_node_le _ _).trans ?_
  simp [padding] at hname ⊢
  omega

omit config in
theorem sum_range_le (f : Nat → Forest) {n c : Nat} (h : ∀ idx < n, (f idx).structSize ≤ c) :
    (((List.range n).map f).map Forest.structSize).sum ≤ c * n := by
  induction n with
  | zero => exact Nat.zero_le _
  | succ n ih =>
      have hfront := ih fun idx hidx => h idx (hidx.trans (Nat.lt_succ_self n))
      have hlast := h n (Nat.lt_succ_self n)
      rw [List.range_succ, List.map_append, List.map_append, List.sum_append, Nat.mul_succ]
      simp only [List.map_cons, List.map_nil, List.sum_cons, List.sum_nil]
      omega

theorem structSize_cpusNode_le : (cpusNode config).structSize ≤ 104 + 288 * config.nrHarts := by
  have hle := config.nrHarts_le
  have hcores := sum_range_le coreNode fun idx (hidx : idx < config.nrHarts) =>
    structSize_coreNode_le idx (by omega)
  have hharts := sum_range_le (hartNode config.nrHarts) fun idx (hidx : idx < config.nrHarts) =>
    structSize_hartNode_le config.nrHarts idx (by omega)
  have hcluster := structSize_node_le (literal "cluster0") ((List.range config.nrHarts).map coreNode)
  have hmap := structSize_node_le (literal "cpu-map")
    [node (literal "cluster0") ((List.range config.nrHarts).map coreNode)]
  unfold cpusNode
  refine (structSize_node_le _ _).trans ?_
  rw [List.map_append, List.sum_append]
  simp [padding] at hmap hcluster ⊢
  simp only [List.map_map] at hcores hharts
  omega

theorem structSize_socNode_le :
    (socNode config).structSize ≤ 432 + 32 * config.nrHarts := by
  have hclint := structSize_clintNode_le config
  have hplic := structSize_plicNode_le config
  have hsyscon := structSize_sysconNode_le
  unfold socNode
  refine (structSize_node_le _ _).trans ?_
  simp [padding]
  omega

/-- A bound on the structure block. -/
theorem structSize_deviceTree_le :
    (deviceTree config).structSize ≤
      1100 + 320 * config.nrHarts + config.bootarg.strlen := by
  have hbootrom := structSize_bootromNode_le config
  have hchosen := structSize_chosenNode_le config
  have huart := structSize_uartNode_le
  have hmemory := structSize_memoryNode_le config
  have hcpus := structSize_cpusNode_le config
  have hsoc := structSize_socNode_le config
  unfold deviceTree
  refine (structSize_node_le _ _).trans ?_
  simp [padding]
  omega

end Sizes

/-! ## Building the tree -/

/-- A tree whose blocks are short has short names and values. -/
theorem short_of_sizes {f : Forest} (hstruct : f.structSize < 2 ^ 32 - 64)
    (hnames : f.nameBytes < 2 ^ 32 - 64) : ∀ token ∈ f.tokens, Short token := by
  intro token hmem
  have hsize : token.size ≤ f.structSize := by
    rw [structSize_eq]
    exact List.single_le_sum (fun _ _ => Nat.zero_le _) _ (List.mem_map_of_mem hmem)
  have hstring : token.string.length ≤ f.nameBytes := by
    rw [nameBytes_eq, stringBytes, List.length_flatMap]
    exact List.single_le_sum (fun _ _ => Nat.zero_le _) _
      (List.mem_map_of_mem (f := fun token : Token => token.string.length) hmem)
  cases token with
  | beginNode name =>
      rw [Token.size] at hsize
      exact (by omega : name.strlen < 2 ^ 32 - 64)
  | prop name value =>
      rw [Token.size] at hsize
      rw [Token.string, List.length_append, List.length_singleton] at hstring
      exact ⟨by change name.bytes.length < _; omega, by omega⟩
  | nop => exact True.intro
  | endNode => exact True.intro

variable (config : TreeConfig)

/-- The bytes of the finished blob. -/
def treeSize : Nat :=
  60 + (deviceTree config).structSize + (deviceTree config).nameBytes

/-- The tree fits what `fdt_init` allocates for it. -/
def Admissible : Prop :=
  config.nrHarts ≤ 4 ∧ treeSize config ≤ 8192

instance : Decidable (Admissible config) :=
  inferInstanceAs (Decidable (_ ∧ _))

/-- The blob of a configuration. -/
def treeBlob : List Byte :=
  finalBytes (structBytes 0 (deviceTree config).tokens) (stringBytes (deviceTree config).tokens)

theorem length_treeBlob : (treeBlob config).length = treeSize config := by
  rw [treeBlob, length_finalBytes, length_structBytes, ← structSize_eq, ← nameBytes_eq, treeSize]
  omega

theorem roomy_iff : Roomy (deviceTree config) 8192 1024 ↔ Admissible config := by
  have hnames := nameBytes_deviceTree config
  have hinitrd := initrdNameBytes_le config
  have hbuffer : (8192 : Word).toNat = 8192 := rfl
  have hstring : (1024 : Word).toNat = 1024 := rfl
  unfold Roomy Admissible treeSize
  rw [hbuffer, hstring]
  omega

theorem build_deviceTree (hbootarg : config.bootarg.strlen < 2 ^ 31) :
    (deviceTree config).build 8192 1024 =
      if Admissible config then .ok (builtFrom 8192 1024 (deviceTree config))
      else .error .exit := by
  have hstruct := structSize_deviceTree_le config
  have hnames := nameBytes_deviceTree config
  have hharts := config.nrHarts_le
  have hinitrd := initrdNameBytes_le config
  rw [build_cases (by decide) (by decide) (short_of_sizes (by omega) (by omega))]
  exact if_congr (roomy_iff config) rfl rfl

theorem fdtInit_eq (base : Nat) (rom : HostMem) :
    fdtInit config base rom = (do
      let blob ← (deviceTree config).build 8192 1024
      fdtAssert (blob.bufferIptr ≤ ZELDA_DTB_MAX_SIZE)
      fdtAssert (base = 0 ∧ ZELDA_ROM_MIN_SIZE ≤ rom.size)
      match readAt blob.buffer 0 blob.bufferIptr.toNat with
      | none => .error .hostFault
      | some bytes => pure (blob, rom.copyTo (ZELDA_DTB_ADDRESS - base) bytes)) := by
  unfold fdtInit Forest.build
  cases fdtBuildInit 8192 1024 with
  | error e => rfl
  | ok blob =>
      simp only [bind_ok, buildRootFdtNode_eq]
      cases (deviceTree config).emit blob with
      | error e => rfl
      | ok blob => rfl

/-- The machine gives the tree a ROM it can stand in. -/
def RomFits (base : Nat) (rom : HostMem) : Prop :=
  base = 0 ∧ ZELDA_ROM_MIN_SIZE ≤ rom.size

instance (base : Nat) (rom : HostMem) : Decidable (RomFits base rom) :=
  inferInstanceAs (Decidable (_ ∧ _))

theorem fdtAssert_of {p : Prop} [Decidable p] (h : p) : fdtAssert p = .ok () := by
  rw [fdtAssert, decide_eq_true h, if_pos rfl]

theorem fdtAssert_of_not {p : Prop} [Decidable p] (h : ¬p) : fdtAssert p = .error .exit := by
  rw [fdtAssert, decide_eq_false h]
  rfl

theorem fdtInit_cases (hbootarg : config.bootarg.strlen < 2 ^ 31) (base : Nat) (rom : HostMem) :
    fdtInit config base rom =
      if Admissible config ∧ RomFits base rom then
        .ok (builtFrom 8192 1024 (deviceTree config),
          rom.copyTo ZELDA_DTB_ADDRESS (treeBlob config))
      else .error .exit := by
  rw [fdtInit_eq, build_deviceTree config hbootarg]
  by_cases hadmissible : Admissible config
  · rw [if_pos hadmissible, bind_ok]
    have hlength := length_treeBlob config
    have hiptr : (builtFrom 8192 1024 (deviceTree config)).bufferIptr.toNat =
        (treeBlob config).length :=
      toNat_iptr 8192 (hlength.trans_le hadmissible.2)
    have hmax : (builtFrom 8192 1024 (deviceTree config)).bufferIptr ≤ ZELDA_DTB_MAX_SIZE := by
      rw [BitVec.le_def, hiptr, hlength]
      exact hadmissible.2
    have hread : readAt (builtFrom 8192 1024 (deviceTree config)).buffer 0
        (treeBlob config).length = some (treeBlob config) :=
      readAt_filled 8192 (treeBlob config)
    rw [fdtAssert_of hmax, bind_ok, hiptr, hread]
    by_cases hrom : RomFits base rom
    · have hbase : ZELDA_DTB_ADDRESS - base = ZELDA_DTB_ADDRESS := by
        rw [hrom.1, Nat.sub_zero]
      have hassert : fdtAssert (base = 0 ∧ ZELDA_ROM_MIN_SIZE ≤ rom.size) = .ok () :=
        fdtAssert_of hrom
      rw [if_pos ⟨hadmissible, hrom⟩, hassert, bind_ok, hbase]
      rfl
    · have hassert : fdtAssert (base = 0 ∧ ZELDA_ROM_MIN_SIZE ≤ rom.size) = .error .exit :=
        fdtAssert_of_not hrom
      rw [if_neg fun hboth => hrom hboth.2, hassert]
      rfl
  · rw [if_neg hadmissible, if_neg fun hboth => hadmissible hboth.1]
    rfl

theorem treeSize_le (hharts : config.nrHarts ≤ 4) (hshort : config.bootarg.strlen ≤ 4096) :
    treeSize config ≤ 8192 := by
  have hstruct := structSize_deviceTree_le config
  have hnames := nameBytes_deviceTree config
  have hinitrd := initrdNameBytes_le config
  unfold treeSize
  omega

/--
Initialising the tree returns exactly for at most four harts and a tree of at
most 8192 bytes, and any other configuration ends in an assertion; boot
arguments of up to 4096 bytes always leave room enough.
-/
theorem fdtInit_spec (hbootarg : config.bootarg.strlen < 2 ^ 31) (base : Nat) (rom : HostMem) :
    fdtInit config base rom =
        (if (config.nrHarts ≤ 4 ∧ treeSize config ≤ 8192) ∧ base = 0 ∧ 0x400000 ≤ rom.size then
          .ok (builtFrom 8192 1024 (deviceTree config), rom.copyTo 0x1000 (treeBlob config))
        else .error .exit) ∧
      (config.nrHarts ≤ 4 → config.bootarg.strlen ≤ 4096 → treeSize config ≤ 8192) := by
  exact ⟨fdtInit_cases config hbootarg base rom, treeSize_le config⟩

/-- The configuration the repository ships. -/
def shippedConfig : TreeConfig where
  romStart := 0
  romSize := 0x400000
  bootarg := literal "console=ttyS0 earlycon=uart8250,mmio,0x10000000"
  initrd := none
  mainMemBase := 0x80000000
  mainMemSize := 0x10000000
  nrHarts := 1
  clintBase := 0x02000000
  clintSize := 0x00010000
  plicBase := 0x0c000000
  plicSize := 0x04000000
  nrHarts_le := by decide

theorem bootarg_shippedConfig : shippedConfig.bootarg.strlen = 47 := rfl

theorem admissible_shippedConfig : Admissible shippedConfig :=
  ⟨by decide, treeSize_le shippedConfig (by decide) (by rw [bootarg_shippedConfig]; decide)⟩

/-- A ROM of the shipped size, as it is allocated. -/
def shippedRom : HostMem where
  size := 0x400000
  bytes := fun _ => 0

theorem fdtInit_shipped :
    fdtInit shippedConfig 0 shippedRom =
      .ok (builtFrom 8192 1024 (deviceTree shippedConfig),
        shippedRom.copyTo 0x1000 (treeBlob shippedConfig)) := by
  rw [fdtInit_cases shippedConfig (by rw [bootarg_shippedConfig]; decide)]
  exact if_pos ⟨admissible_shippedConfig, rfl, le_refl _⟩

theorem fdtInit_spec_shipped :
    shippedConfig.bootarg.strlen < 2 ^ 31 ∧
      fdtInit shippedConfig 0 shippedRom =
        .ok (builtFrom 8192 1024 (deviceTree shippedConfig),
          shippedRom.copyTo 0x1000 (treeBlob shippedConfig)) := by
  have hbootarg : shippedConfig.bootarg.strlen < 2 ^ 31 := by
    rw [bootarg_shippedConfig]
    decide
  refine ⟨hbootarg, ?_⟩
  rw [(fdtInit_spec shippedConfig hbootarg 0 shippedRom).1]
  exact if_pos ⟨admissible_shippedConfig, rfl, le_refl _⟩

theorem copyTo_slot (rom : HostMem) (offset : Nat) (bytes : List Byte) :
    (List.range bytes.length).map (fun i => (rom.copyTo offset bytes).bytes (offset + i)) =
      bytes := by
  apply List.ext_getElem
  · rw [List.length_map, List.length_range]
  · intro i hi hi'
    rw [List.getElem_map, List.getElem_range, HostMem.copyTo]
    simp only [Nat.le_add_right, Nat.add_sub_cancel_left, hi', and_self, dif_pos, List.get_eq_getElem]

theorem copyTo_elsewhere (rom : HostMem) {offset i : Nat} {bytes : List Byte}
    (hi : i < offset ∨ offset + bytes.length ≤ i) :
    (rom.copyTo offset bytes).bytes i = rom.bytes i := by
  refine dif_neg ?_
  omega

/--
What stands in the ROM when the tree has been initialised: a scan of its slot,
wherever the host keeps the ROM, sees the tokens of the tree and stops at its
end; the slot ends before the boot information, and nothing outside it changes.
-/
theorem rom_holds_tree (hbootarg : config.bootarg.strlen < 2 ^ 31) {base : Nat} {rom rom' : HostMem}
    {blob : FdtBuildBlob} (hinit : fdtInit config base rom = .ok (blob, rom')) :
    (∀ (dtb : DWord) (rounds : Nat), dtb.toNat % 4 = 0 →
      (deviceTree config).tokens.length < rounds →
      scanFdtTokens rounds dtb
          ((List.range (treeSize config)).map fun i => rom'.bytes (0x1000 + i)) =
        .ok ⟨ptrTo dtb (60 + (deviceTree config).structSize), true,
          (deviceTree config).tokens.map Token.visit ++ [.fdtEnd]⟩) ∧
      0x1000 + treeSize config ≤ 0x3000 ∧
      ∀ i, i < 0x1000 ∨ 0x1000 + treeSize config ≤ i → rom'.bytes i = rom.bytes i := by
  rw [fdtInit_cases config hbootarg] at hinit
  split at hinit
  · rename_i hfits
    obtain ⟨-, rfl⟩ := Prod.mk.inj (Except.ok.inj hinit)
    have hlength := length_treeBlob config
    have hsize := hfits.1.2
    refine ⟨fun dtb rounds hdtb hrounds => ?_, by omega, fun i hi => ?_⟩
    · have hscan := scan_finalBytes (deviceTree config).tokens hdtb
        (by rw [← treeBlob, hlength]; omega) hrounds
      have hend : 56 + (deviceTree config).structSize + 4 = 60 + (deviceTree config).structSize := by
        omega
      rw [← treeBlob, length_structBytes, ← structSize_eq, hend] at hscan
      rw [← hlength, show (0x1000 : Nat) = ZELDA_DTB_ADDRESS from rfl, copyTo_slot]
      exact hscan
    · rw [← hlength] at hi
      exact copyTo_elsewhere rom hi
  · cases hinit

theorem rom_holds_tree_shipped :
    (shippedRom.copyTo 0x1000 (treeBlob shippedConfig)).bytes 0x3000 = 0 ∧
      0x1000 + treeSize shippedConfig ≤ 0x3000 := by
  obtain ⟨-, hslot, hrest⟩ := rom_holds_tree shippedConfig
    (by rw [bootarg_shippedConfig]; decide) fdtInit_shipped
  exact ⟨hrest 0x3000 (Or.inr hslot), hslot⟩

end Zelda.Proofs.MachineTree
