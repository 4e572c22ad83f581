import Zelda.Proofs.MachineTree
import Mathlib.Data.List.Nodup
/-!
# References in the device tree

Nodes refer to each other by the values of their `phandle` properties.  In the
tree of every configuration these differ, and every reference leads to the node
it is meant for.
-/

namespace Zelda.Proofs.TreeReferences

open Zelda.Vmm
open Zelda.Proofs.DeviceTree
open Zelda.Proofs.MachineTree
open Zelda.Proofs.TreeRefusal

/-! ## The nodes of a tree -/

/-- A node as a reader of the tree sees it. -/
structure NodeView where
  path : List (List Byte)
  props : List (List Byte × List Byte)

/-- The properties that do not belong to a node below. -/
def ownProps : Forest → List (List Byte × List Byte)
  | .nil => []
  | .node _ _ rest => ownProps rest
  | .prop name value rest => (name.bytes, value) :: ownProps rest
  | .nop rest => ownProps rest

/-- The nodes below a path, in the order of the tree. -/
def nodesUnder : List (List Byte) → Forest → List NodeView
  | _, .nil => []
  | path, .node name items rest =>
      ⟨path ++ [name.bytes], ownProps items⟩ ::
        (nodesUnder (path ++ [name.bytes]) items ++ nodesUnder path rest)
  | path, .prop _ _ rest => nodesUnder path rest
  | path, .nop rest => nodesUnder path rest

def nodes (tree : Forest) : List NodeView :=
  nodesUnder [] tree

/-- The values of the properties of that name. -/
def valuesOf (name : CString) (props : List (List Byte × List Byte)) : List (List Byte) :=
  (props.filter fun p => p.1 = name.bytes).map Prod.snd

/-- The handles nodes give themselves, in the order of the tree. -/
def handles (views : List NodeView) : List (List Byte) :=
  views.flatMap fun view => valuesOf (literal "phandle") view.props

section Parts

variable (path : List (List Byte))

theorem ownProps_append (f g : Forest) : ownProps (append f g) = ownProps f ++ ownProps g := by
  induction f with
  | nil => rfl
  | node name items rest _ ih => exact ih
  | prop name value rest ih => exact congrArg ((name.bytes, value) :: ·) ih
  | nop rest ih => exact ih

theorem ownProps_concat (fs : List Forest) : ownProps (concat fs) = fs.flatMap ownProps := by
  induction fs with
  | nil => rfl
  | cons f fs ih => rw [concat, ownProps_append, ih, List.flatMap_cons]

theorem nodesUnder_append (f g : Forest) :
    nodesUnder path (append f g) = nodesUnder path f ++ nodesUnder path g := by
  induction f generalizing path with
  | nil => rfl
  | node name items rest _ ih =>
      rw [append, nodesUnder, nodesUnder, ih, List.cons_append, List.append_assoc]
  | prop name value rest ih => exact ih path
  | nop rest ih => exact ih path

theorem nodesUnder_concat (fs : List Forest) :
    nodesUnder path (concat fs) = fs.flatMap (nodesUnder path) := by
  induction fs with
  | nil => rfl
  | cons f fs ih => rw [concat, nodesUnder_append, ih, List.flatMap_cons]

@[simp] theorem ownProps_leaf (name : CString) (value : List Byte) :
    ownProps (leaf name value) = [(name.bytes, value)] := rfl

@[simp] theorem ownProps_node (name : CString) (items : List Forest) :
    ownProps (node name items) = [] := rfl

@[simp] theorem nodesUnder_leaf (name : CString) (value : List Byte) :
    nodesUnder path (leaf name value) = [] := rfl

@[simp] theorem nodesUnder_node (name : CString) (items : List Forest) :
    nodesUnder path (node name items) =
      ⟨path ++ [name.bytes], items.flatMap ownProps⟩ ::
        items.flatMap (nodesUnder (path ++ [name.bytes])) := by
  rw [node, nodesUnder, ownProps_concat, nodesUnder_concat]
  exact congrArg _ (List.append_nil _)

end Parts

/-! ## The handles differ -/

/-- The handles of a configuration, as numbers. -/
def handleNumbers (nrHarts : Nat) : List Nat :=
  ((List.range nrHarts).flatMap fun idx => [2 + idx, 2 + nrHarts + idx]) ++ [1]

theorem nodup_handleNumbers (nrHarts : Nat) : (handleNumbers nrHarts).Nodup := by
  rw [handleNumbers, List.nodup_append]
  refine ⟨?_, List.nodup_singleton 1, ?_⟩
  · rw [List.nodup_flatMap]
    constructor
    · intro idx hidx
      rw [List.mem_range] at hidx
      rw [List.nodup_cons, List.mem_singleton]
      exact ⟨by omega, List.nodup_singleton _⟩
    · refine List.nodup_range.imp_of_mem fun {a b} ha hb hne => ?_
      rw [List.mem_range] at ha hb
      simp only [Function.onFun, List.disjoint_left, List.mem_cons, List.not_mem_nil, or_false]
      omega
  · intro a ha b hb
    obtain ⟨idx, -, hmem⟩ := List.mem_flatMap.mp ha
    simp only [List.mem_cons, List.not_mem_nil, or_false] at hmem hb
    omega

theorem bigEndian32_injective : Function.Injective bigEndian32 :=
  Function.LeftInverse.injective littleEndian32_bigEndian32

theorem wordBytes_injective : Function.Injective wordBytes := by
  intro v w heq
  simp only [wordBytes, List.cons.injEq, and_true] at heq
  obtain ⟨h0, h1, h2, h3⟩ := heq
  rw [← append_wordBytes v, ← append_wordBytes w, h0, h1, h2, h3]

/-- The cell of a number. -/
def cellOf (n : Nat) : List Byte :=
  cells [BitVec.ofNat 32 n]

theorem cellOf_injOn {a b : Nat} (ha : a < 2 ^ 32) (hb : b < 2 ^ 32) (h : cellOf a = cellOf b) :
    a = b := by
  simp only [cellOf, cells, List.flatMap_cons, List.flatMap_nil, List.append_nil] at h
  have hword := congrArg BitVec.toNat (bigEndian32_injective (wordBytes_injective h))
  rwa [BitVec.toNat_ofNat, BitVec.toNat_ofNat, Nat.mod_eq_of_lt ha, Nat.mod_eq_of_lt hb] at hword

/-! ## Names differ among siblings -/

/-- The names of the nodes of a level. -/
def childNames : Forest → List (List Byte)
  | .nil => []
  | .node name _ rest => name.bytes :: childNames rest
  | .prop _ _ rest => childNames rest
  | .nop rest => childNames rest

/-- Below every node of a level, no two siblings have one name. -/
def DistinctBelow : Forest → Prop
  | .nil => True
  | .node _ items rest => ((childNames items).Nodup ∧ DistinctBelow items) ∧ DistinctBelow rest
  | .prop _ _ rest => DistinctBelow rest
  | .nop rest => DistinctBelow rest

theorem childNames_append (f g : Forest) :
    childNames (append f g) = childNames f ++ childNames g := by
  induction f with
  | nil => rfl
  | node name items rest _ ih => exact congrArg (name.bytes :: ·) ih
  | prop name value rest ih => exact ih
  | nop rest ih => exact ih

theorem childNames_concat (fs : List Forest) :
    childNames (concat fs) = fs.flatMap childNames := by
  induction fs with
  | nil => rfl
  | cons f fs ih => rw [concat, childNames_append, ih, List.flatMap_cons]

@[simp] theorem childNames_leaf (name : CString) (value : List Byte) :
    childNames (leaf name value) = [] := rfl

@[simp] theorem childNames_node (name : CString) (items : List Forest) :
    childNames (node name items) = [name.bytes] := rfl

theorem distinctBelow_append (f g : Forest) :
    DistinctBelow (append f g) ↔ DistinctBelow f ∧ DistinctBelow g := by
  induction f with
  | nil => simp only [append, DistinctBelow, true_and]
  | node name items rest _ ih => simp only [append, DistinctBelow, ih, and_assoc]
  | prop name value rest ih => exact ih
  | nop rest ih => exact ih

theorem distinctBelow_concat (fs : List Forest) :
    DistinctBelow (concat fs) ↔ ∀ f ∈ fs, DistinctBelow f := by
  induction fs with
  | nil => simp only [concat, DistinctBelow, List.not_mem_nil, false_implies, implies_true]
  | cons f fs ih => rw [concat, distinctBelow_append, ih, List.forall_mem_cons]

@[simp] theorem distinctBelow_leaf (name : CString) (value : List Byte) :
    DistinctBelow (leaf name value) := trivial

theorem distinctBelow_node (name : CString) (items : List Forest) :
    DistinctBelow (node name items) ↔
      (items.flatMap childNames).Nodup ∧ ∀ f ∈ items, DistinctBelow f := by
  rw [node, DistinctBelow, childNames_concat, distinctBelow_concat]
  exact and_iff_left trivial

/-- Nodes below a path have paths that go on with a name of the level. -/
theorem path_of_mem_nodesUnder {path : List (List Byte)} {f : Forest} {view : NodeView}
    (hview : view ∈ nodesUnder path f) :
    ∃ name ∈ childNames f, ∃ tail, view.path = path ++ name :: tail := by
  induction f generalizing path with
  | nil => cases hview
  | node name items rest ihitems ihrest =>
      rw [nodesUnder, List.mem_cons, List.mem_append] at hview
      rcases hview with rfl | hview | hview
      · exact ⟨name.bytes, List.mem_cons_self, [], rfl⟩
      · obtain ⟨below, -, tail, hpath⟩ := ihitems hview
        exact ⟨name.bytes, List.mem_cons_self, below :: tail,
          hpath.trans (List.append_assoc path [name.bytes] (below :: tail))⟩
      · obtain ⟨sibling, hmem, tail, hpath⟩ := ihrest hview
        exact ⟨sibling, List.mem_cons_of_mem _ hmem, tail, hpath⟩
  | prop name value rest ih => exact ih hview
  | nop rest ih => exact ih hview

/-- Where siblings have names of their own, nodes have paths of their own. -/
theorem nodup_paths {f : Forest} (path : List (List Byte)) (hnames : (childNames f).Nodup)
    (hbelow : DistinctBelow f) : ((nodesUnder path f).map NodeView.path).Nodup := by
  induction f generalizing path with
  | nil => exact List.nodup_nil
  | node name items rest ihitems ihrest =>
      obtain ⟨⟨hitems, hinner⟩, houter⟩ := hbelow
      rw [childNames, List.nodup_cons] at hnames
      obtain ⟨hfresh, hrest⟩ := hnames
      rw [nodesUnder, List.map_cons, List.map_append, List.nodup_cons, List.nodup_append]
      have hlater : ∀ view ∈ nodesUnder path rest, ∀ tail,
          view.path ≠ path ++ name.bytes :: tail := by
        intro view hview tail heq
        obtain ⟨sibling, hmem, tail', hpath⟩ := path_of_mem_nodesUnder hview
        rw [hpath] at heq
        have hhead := (List.cons.inj (List.append_cancel_left heq)).1
        exact hfresh (hhead ▸ hmem)
      refine ⟨?_, ihitems _ hitems hinner, ihrest _ hrest houter, ?_⟩
      · rw [List.mem_append, not_or]
        constructor
        · intro hmem
          obtain ⟨view, hview, hpath⟩ := List.mem_map.mp hmem
          obtain ⟨below, -, tail, hpath'⟩ := path_of_mem_nodesUnder hview
          have hlength := congrArg List.length (hpath.symm.trans hpath')
          simp only [List.length_append, List.length_cons] at hlength
          omega
        · intro hmem
          obtain ⟨view, hview, hpath⟩ := List.mem_map.mp hmem
          exact hlater view hview [] hpath
      · intro a ha b hb heq
        obtain ⟨view, hview, rfl⟩ := List.mem_map.mp ha
        obtain ⟨view', hview', rfl⟩ := List.mem_map.mp hb
        obtain ⟨below, -, tail, hpath⟩ := path_of_mem_nodesUnder hview
        refine hlater view' hview' (below :: tail) (heq.symm.trans ?_)
        rw [hpath, List.append_assoc]
        rfl
  | prop name value rest ih => exact ih path hnames hbelow
  | nop rest ih => exact ih path hnames hbelow

/-! ## The names in the tree -/

theorem digitChar_range {d : Nat} (h : d < 16) :
    0 < (Nat.digitChar d).toNat ∧ (Nat.digitChar d).toNat < 128 := by
  have hall : ∀ d < 16, 0 < (Nat.digitChar d).toNat ∧ (Nat.digitChar d).toNat < 128 := by decide
  exact hall d h

theorem toDigits_range {b n : Nat} (hb : 1 < b) (hle : b ≤ 16) :
    ∀ c ∈ Nat.toDigits b n, 0 < c.toNat ∧ c.toNat < 128 := by
  induction n using Nat.strongRecOn with
  | ind n ih =>
      intro c hc
      rw [Nat.toDigits_eq_if hb] at hc
      split at hc
      · obtain rfl := List.mem_singleton.mp hc
        exact digitChar_range (by omega)
      · rcases List.mem_append.mp hc with hc | hc
        · exact ih (n / b) (Nat.div_lt_self (by omega) hb) c hc
        · obtain rfl := List.mem_singleton.mp hc
          exact digitChar_range ((Nat.mod_lt n (by omega)).trans_le hle)

theorem asciiByte_injOn {c d : Char} (hc : 0 < c.toNat ∧ c.toNat < 128)
    (hd : 0 < d.toNat ∧ d.toNat < 128) (h : asciiByte c = asciiByte d) : c = d := by
  rw [asciiByte, if_pos hc, asciiByte, if_pos hd] at h
  have hnat := congrArg BitVec.toNat h
  rw [BitVec.toNat_ofNat, BitVec.toNat_ofNat, Nat.mod_eq_of_lt (by omega),
    Nat.mod_eq_of_lt (by omega)] at hnat
  exact Char.toNat_inj.mp hnat

theorem ascii_injOn {s t : List Char} (hs : ∀ c ∈ s, 0 < c.toNat ∧ c.toNat < 128)
    (ht : ∀ c ∈ t, 0 < c.toNat ∧ c.toNat < 128) (h : ascii s = ascii t) : s = t := by
  induction s generalizing t with
  | nil => exact (List.map_eq_nil_iff.mp h.symm).symm
  | cons c s ih =>
      obtain ⟨d, t, rfl, hhead, htail⟩ := List.map_eq_cons_iff.mp h.symm
      rw [List.forall_mem_cons] at hs ht
      rw [asciiByte_injOn ht.1 hs.1 hhead, ih hs.2 ht.2 htail.symm]

theorem decName_injective (stem : CString) {a b : Nat}
    (h : (decName stem a).bytes = (decName stem b).bytes) : a = b := by
  have hdigits : Nat.toDigits 10 a = Nat.toDigits 10 b :=
    ascii_injOn (toDigits_range (by decide) (by decide)) (toDigits_range (by decide) (by decide))
      (List.append_cancel_left h)
  rw [← Nat.ofDigitChars_ten_toDigits (n := a), hdigits, Nat.ofDigitChars_ten_toDigits]

variable (config : TreeConfig)

theorem nodup_numbered (stem : CString) (n : Nat) :
    ((List.range n).map fun idx => (decName stem idx).bytes).Nodup :=
  List.nodup_range.map fun _ _ h => decName_injective stem h

/-- Names differ that begin differently. -/
theorem nodup_of_heads {names : List (List Byte)} (n : Nat) (heads : List String)
    (hheads : names.map (List.take n) = heads.map fun s => ascii s.toList)
    (hnodup : (heads.map fun s => ascii s.toList).Nodup) : names.Nodup :=
  List.Nodup.of_map (List.take n) (hheads ▸ hnodup)

theorem distinct_bootromNode : DistinctBelow (bootromNode config) := by
  simp [bootromNode, distinctBelow_node]

theorem distinct_chosenNode : DistinctBelow (chosenNode config) := by
  rw [chosenNode, initrdProps]
  cases config.initrd with
  | none => simp [distinctBelow_node]
  | some initrd => simp [distinctBelow_node]

theorem distinct_uartNode : DistinctBelow uartNode := by
  simp [uartNode, distinctBelow_node]

theorem distinct_memoryNode : DistinctBelow (memoryNode config) := by
  simp [memoryNode, distinctBelow_node]

theorem distinct_hartNode (nrHarts idx : Nat) : DistinctBelow (hartNode nrHarts idx) := by
  simp [hartNode, controllerNode, distinctBelow_node]

theorem distinct_coreNode (idx : Nat) : DistinctBelow (coreNode idx) := by
  simp [coreNode, distinctBelow_node]

theorem flatMap_childNames_hartNode (nrHarts n : Nat) :
    ((List.range n).map (hartNode nrHarts)).flatMap childNames =
      (List.range n).map fun idx => (decName (literal "cpu@") idx).bytes := by
  rw [List.flatMap_map]
  exact List.map_eq_flatMap.symm

theorem flatMap_childNames_coreNode (n : Nat) :
    ((List.range n).map coreNode).flatMap childNames =
      (List.range n).map fun idx => (decName (literal "core") idx).bytes := by
  rw [List.flatMap_map]
  exact List.map_eq_flatMap.symm

theorem distinct_clusterNode (n : Nat) :
    DistinctBelow (node (literal "cluster0") ((List.range n).map coreNode)) := by
  rw [distinctBelow_node, flatMap_childNames_coreNode, List.forall_mem_map]
  exact ⟨nodup_numbered _ n, fun idx _ => distinct_coreNode idx⟩

theorem distinct_cpusNode : DistinctBelow (cpusNode config) := by
  have hmap : DistinctBelow (node (literal "cpu-map")
      [node (literal "cluster0") ((List.range config.nrHarts).map coreNode)]) := by
    rw [distinctBelow_node, List.forall_mem_singleton]
    exact ⟨List.nodup_singleton _, distinct_clusterNode config.nrHarts⟩
  rw [cpusNode, distinctBelow_node, List.flatMap_append, flatMap_childNames_hartNode]
  constructor
  · refine List.nodup_cons.mpr ⟨fun hmem => ?_, nodup_numbered _ _⟩
    -- `cpu-map` is no `cpu@<id>`
    obtain ⟨idx, -, hname⟩ := List.mem_map.mp hmem
    have hfourth : some (0x40 : Byte) = some 0x2d := congrArg (fun name => name[3]?) hname
    exact absurd hfourth (by decide)
  · rw [List.forall_mem_append, List.forall_mem_map]
    refine ⟨?_, fun idx _ => distinct_hartNode config.nrHarts idx⟩
    simp only [List.forall_mem_cons, distinctBelow_leaf, hmap, List.not_mem_nil, false_implies,
      implies_true, and_self]

theorem distinct_socNode : DistinctBelow (socNode config) := by
  rw [socNode, distinctBelow_node]
  refine ⟨nodup_of_heads 1 ["c", "p", "t"] rfl (by decide), ?_⟩
  simp [clintNode, plicNode, sysconNode, distinctBelow_node]

theorem distinct_deviceTree : DistinctBelow (deviceTree config) := by
  rw [deviceTree, distinctBelow_node]
  refine ⟨nodup_of_heads 2 ["bo", "ch", "ua", "me", "cp", "so"] rfl (by decide), ?_⟩
  simp only [List.forall_mem_cons, distinctBelow_leaf, distinct_bootromNode, distinct_chosenNode,
    distinct_uartNode, distinct_memoryNode, distinct_cpusNode, distinct_socNode, List.not_mem_nil,
    false_implies, implies_true, and_self]

/-! ## The handles in the tree -/

/-- The handles of a level. -/
def ownHandles (f : Forest) : List (List Byte) :=
  valuesOf (literal "phandle") (ownProps f)

/-- The handles of the nodes of a level and below. -/
def handlesIn (f : Forest) : List (List Byte) :=
  handles (nodesUnder [] f)

theorem handles_nodesUnder (path : List (List Byte)) (f : Forest) :
    handles (nodesUnder path f) = handlesIn f := by
  have hany : ∀ path' : List (List Byte),
      handles (nodesUnder path f) = handles (nodesUnder path' f) := by
    induction f generalizing path with
    | nil => exact fun _ => rfl
    | node name items rest ihitems ihrest =>
        intro path'
        simp only [handles, nodesUnder, List.flatMap_cons, List.flatMap_append] at ihitems ihrest ⊢
        rw [ihitems _ (path' ++ [name.bytes]), ihrest path path']
    | prop name value rest ih => exact ih path
    | nop rest ih => exact ih path
  exact hany []

theorem handlesIn_node (name : CString) (items : List Forest) :
    handlesIn (node name items) = items.flatMap ownHandles ++ items.flatMap handlesIn := by
  have hown : valuesOf (literal "phandle") (items.flatMap ownProps) =
      items.flatMap ownHandles := by
    rw [valuesOf, List.filter_flatMap, List.map_flatMap]
    rfl
  have hbelow : handles (items.flatMap (nodesUnder ([] ++ [name.bytes]))) =
      items.flatMap handlesIn := by
    rw [handles, List.flatMap_assoc]
    exact List.flatMap_congr fun f _ => handles_nodesUnder _ f
  rw [handlesIn, nodesUnder_node, handles, List.flatMap_cons, hown, ← handles, hbelow]

/-- A leaf of another name has no handle. -/
@[simp] theorem handlesIn_leaf (name : CString) (value : List Byte) :
    handlesIn (leaf name value) = [] := rfl

theorem handlesIn_hartNode (nrHarts idx : Nat) :
    handlesIn (hartNode nrHarts idx) =
      [cells [hartHandle idx], cells [controllerHandle nrHarts idx]] := rfl

theorem handlesIn_coreNode (idx : Nat) : handlesIn (coreNode idx) = [] := rfl

theorem handlesIn_chosenNode : handlesIn (chosenNode config) = [] := by
  rw [chosenNode, initrdProps]
  cases config.initrd <;> rfl

theorem handlesIn_socNode : handlesIn (socNode config) = [cells [plicHandle]] := rfl

theorem handlesIn_clusterNode (n : Nat) :
    handlesIn (node (literal "cluster0") ((List.range n).map coreNode)) = [] := by
  have hown : ((List.range n).map coreNode).flatMap ownHandles = [] := by
    rw [List.flatMap_map]
    exact List.flatMap_eq_nil_iff.mpr fun idx _ => rfl
  have hbelow : ((List.range n).map coreNode).flatMap handlesIn = [] := by
    rw [List.flatMap_map]
    exact List.flatMap_eq_nil_iff.mpr fun idx _ => handlesIn_coreNode idx
  rw [handlesIn_node, hown, hbelow, List.append_nil]

theorem handlesIn_cpusNode :
    handlesIn (cpusNode config) =
      (List.range config.nrHarts).flatMap fun idx =>
        [cells [hartHandle idx], cells [controllerHandle config.nrHarts idx]] := by
  have hmap : handlesIn (node (literal "cpu-map")
      [node (literal "cluster0") ((List.range config.nrHarts).map coreNode)]) = [] := by
    rw [handlesIn_node, List.flatMap_singleton, List.flatMap_singleton, handlesIn_clusterNode]
    rfl
  have hown : ((List.range config.nrHarts).map (hartNode config.nrHarts)).flatMap ownHandles =
      [] := by
    rw [List.flatMap_map]
    exact List.flatMap_eq_nil_iff.mpr fun idx _ => rfl
  rw [cpusNode, handlesIn_node, List.flatMap_append, List.flatMap_append, hown, List.flatMap_map]
  simp only [List.flatMap_cons, List.flatMap_nil, hmap, handlesIn_leaf, handlesIn_hartNode,
    List.append_nil, List.nil_append]
  rfl

theorem handles_deviceTree :
    handles (nodes (deviceTree config)) = (handleNumbers config.nrHarts).map cellOf := by
  have hparts : handlesIn (deviceTree config) =
      handlesIn (chosenNode config) ++ (handlesIn (cpusNode config) ++
        handlesIn (socNode config)) := by
    rw [deviceTree, handlesIn_node]
    simp only [List.flatMap_cons, List.flatMap_nil, handlesIn_leaf, List.nil_append,
      List.append_nil]
    rfl
  have hnumbers : ∀ idx, [cells [hartHandle idx], cells [controllerHandle config.nrHarts idx]] =
      [2 + idx, 2 + config.nrHarts + idx].map cellOf := by
    intro idx
    simp only [List.map_cons, List.map_nil, cellOf, hartHandle, controllerHandle, BitVec.ofNat_add]
    rfl
  rw [nodes, ← handlesIn, hparts, handlesIn_chosenNode, handlesIn_cpusNode, handlesIn_socNode,
    List.nil_append, handleNumbers, List.map_append, List.map_flatMap]
  simp only [hnumbers]
  rfl

theorem nodup_handles : (handles (nodes (deviceTree config))).Nodup := by
  have hsmall : ∀ a ∈ handleNumbers config.nrHarts, a < 2 ^ 32 := by
    intro a ha
    have hle := config.nrHarts_le
    rw [handleNumbers, List.mem_append, List.mem_flatMap, List.mem_singleton] at ha
    rcases ha with ⟨idx, hidx, ha⟩ | rfl
    · rw [List.mem_range] at hidx
      simp only [List.mem_cons, List.not_mem_nil, or_false] at ha
      omega
    · decide
  rw [handles_deviceTree]
  exact (nodup_handleNumbers config.nrHarts).map_on fun a ha b hb hcell =>
    cellOf_injOn (hsmall a ha) (hsmall b hb) hcell

theorem nodup_nodes : ((nodes (deviceTree config)).map NodeView.path).Nodup :=
  nodup_paths [] (List.nodup_singleton _) (distinct_deviceTree config)

/-! ## Where a property stands -/

/-- Below `path`, the node at the path `target` has the property. -/
def HasPropUnder (path : List (List Byte)) (f : Forest) (target : List CString) (name : CString)
    (value : List Byte) : Prop :=
  ∃ view ∈ nodesUnder path f,
    view.path = target.map CString.bytes ∧ (name.bytes, value) ∈ view.props

/-- The node at the path `target` has the property. -/
def HasProp (tree : Forest) (target : List CString) (name : CString) (value : List Byte) : Prop :=
  HasPropUnder [] tree target name value

section HasProp

variable {path : List (List Byte)} {target : List CString} {name stem : CString}
  {value : List Byte} {items : List Forest}

theorem HasPropUnder.here (htarget : path ++ [stem.bytes] = target.map CString.bytes)
    (hleaf : leaf name value ∈ items) : HasPropUnder path (node stem items) target name value := by
  rw [HasPropUnder, nodesUnder_node]
  refine ⟨_, List.mem_cons_self, htarget, List.mem_flatMap.mpr ⟨_, hleaf, ?_⟩⟩
  rw [ownProps_leaf]
  exact List.mem_singleton_self _

theorem HasPropUnder.below (item : Forest) (hitem : item ∈ items)
    (hprop : HasPropUnder (path ++ [stem.bytes]) item target name value) :
    HasPropUnder path (node stem items) target name value := by
  obtain ⟨view, hview, hpath, hmem⟩ := hprop
  rw [HasPropUnder, nodesUnder_node]
  exact ⟨view, List.mem_cons_of_mem _ (List.mem_flatMap.mpr ⟨item, hitem, hview⟩), hpath, hmem⟩

end HasProp

/-! ## References -/

/-- The path of a hart. -/
def hartPath (idx : Nat) : List CString :=
  [literal "", literal "cpus", decName (literal "cpu@") idx]

/-- The path of a device. -/
def devicePath (stem : CString) (base : Word) : List CString :=
  [literal "", literal "soc", hexName stem base]

/--
Nodes have paths and handles of their own, and what refers to a node has its
handle: a core to its hart, the UART to the interrupt controller of the
platform, and the two interrupt devices to the local controllers, in the order
of the harts.
-/
structure Wired (tree : Forest) (plic : Word) (hart controller : Nat → Word) : Prop where
  paths : ((nodes tree).map NodeView.path).Nodup
  handles : (handles (nodes tree)).Nodup
  isHart : ∀ idx < config.nrHarts,
    HasProp tree (hartPath idx) (literal "phandle") (cells [hart idx]) ∧
      HasProp tree (hartPath idx) (literal "reg") (cells [BitVec.ofNat 32 idx])
  isController : ∀ idx < config.nrHarts,
    HasProp tree (hartPath idx ++ [literal "interrupt-controller"]) (literal "phandle")
      (cells [controller idx])
  isPlic : HasProp tree (devicePath (literal "plic@") config.plicBase) (literal "phandle")
    (cells [plic])
  core : ∀ idx < config.nrHarts,
    HasProp tree
      [literal "", literal "cpus", literal "cpu-map", literal "cluster0",
        decName (literal "core") idx]
      (literal "cpu") (cells [hart idx])
  uart : HasProp tree [literal "", hexName (literal "uart@") UART_16550_BASE]
    (literal "interrupt-parent") (cells [plic])
  clint : HasProp tree (devicePath (literal "clint@") config.clintBase)
    (literal "interrupts-extended")
    (cells ((List.range config.nrHarts).flatMap fun idx => [controller idx, 3, controller idx, 7]))
  plicTargets : HasProp tree (devicePath (literal "plic@") config.plicBase)
    (literal "interrupts-extended")
    (cells ((List.range config.nrHarts).flatMap fun idx =>
      [controller idx, 11, controller idx, 9]))

section References

variable {target : List CString} {name : CString} {value : List Byte}

theorem hasProp_cpus
    (hprop : HasPropUnder [(literal "").bytes] (cpusNode config) target name value) :
    HasProp (deviceTree config) target name value :=
  HasPropUnder.below (cpusNode config) (by simp) hprop

theorem hasProp_soc
    (hprop : HasPropUnder [(literal "").bytes] (socNode config) target name value) :
    HasProp (deviceTree config) target name value :=
  HasPropUnder.below (socNode config) (by simp) hprop

theorem mem_hartNodes {idx : Nat} (hidx : idx < config.nrHarts) :
    hartNode config.nrHarts idx ∈
      (List.range config.nrHarts).map (hartNode config.nrHarts) :=
  List.mem_map_of_mem (List.mem_range.mpr hidx)

theorem hasProp_hart {idx : Nat} (hidx : idx < config.nrHarts)
    (hprop : HasPropUnder [(literal "").bytes, (literal "cpus").bytes]
      (hartNode config.nrHarts idx) target name value) :
    HasProp (deviceTree config) target name value := by
  apply hasProp_cpus
  rw [cpusNode]
  exact HasPropUnder.below _ (List.mem_append_right _ (mem_hartNodes config hidx)) hprop

theorem hasProp_core {idx : Nat} (hidx : idx < config.nrHarts) :
    HasProp (deviceTree config)
      [literal "", literal "cpus", literal "cpu-map", literal "cluster0",
        decName (literal "core") idx]
      (literal "cpu") (cells [hartHandle idx]) := by
  apply hasProp_cpus
  rw [cpusNode]
  refine HasPropUnder.below _ (List.mem_append_left _ (List.mem_of_getLast? rfl)) ?_
  refine HasPropUnder.below _ (List.mem_singleton_self _) ?_
  refine HasPropUnder.below _ (List.mem_map_of_mem (List.mem_range.mpr hidx)) ?_
  exact HasPropUnder.here rfl (List.mem_singleton_self _)

theorem hasProp_controller {idx : Nat} (hidx : idx < config.nrHarts) :
    HasProp (deviceTree config) (hartPath idx ++ [literal "interrupt-controller"])
      (literal "phandle") (cells [controllerHandle config.nrHarts idx]) := by
  apply hasProp_hart config hidx
  rw [hartNode]
  refine HasPropUnder.below (controllerNode config.nrHarts idx) (List.mem_of_getLast? rfl) ?_
  exact HasPropUnder.here rfl (by simp)

theorem wired_deviceTree :
    Wired config (deviceTree config) plicHandle hartHandle (controllerHandle config.nrHarts) where
  paths := nodup_nodes config
  handles := nodup_handles config
  isHart idx hidx :=
    ⟨hasProp_hart config hidx (HasPropUnder.here rfl (by simp)),
      hasProp_hart config hidx (HasPropUnder.here rfl (by simp))⟩
  isController idx hidx := hasProp_controller config hidx
  isPlic :=
    hasProp_soc config (HasPropUnder.below (plicNode config) (by simp)
      (HasPropUnder.here rfl (by simp)))
  core idx hidx := hasProp_core config hidx
  uart := HasPropUnder.below uartNode (by simp) (HasPropUnder.here rfl (by simp))
  clint :=
    hasProp_soc config (HasPropUnder.below (clintNode config) (by simp)
      (HasPropUnder.here rfl (by simp [extendedCells])))
  plicTargets :=
    hasProp_soc config (HasPropUnder.below (plicNode config) (by simp)
      (HasPropUnder.here rfl (by simp [extendedCells])))

end References

theorem ok_of_bind {α β : Type} {x : Except Abort α} {f : α → Except Abort β} {b : β}
    (h : x >>= f = .ok b) : ∃ a, x = .ok a ∧ f a = .ok b := by
  cases x with
  | error e => cases h
  | ok a => exact ⟨a, rfl, h⟩

/--
Whenever `fdt_init` returns, the blob is that of a tree whose references all
lead to the nodes they are meant for.
-/
theorem references_resolve {base : Nat} {rom rom' : HostMem} {blob : FdtBuildBlob}
    (hinit : fdtInit config base rom = .ok (blob, rom')) :
    ∃ (tree : Forest) (plic : Word) (hart controller : Nat → Word),
      tree.build 8192 1024 = .ok blob ∧ Wired config tree plic hart controller := by
  rw [fdtInit_eq] at hinit
  obtain ⟨built, hbuild, hrest⟩ := ok_of_bind hinit
  obtain ⟨-, -, hrest⟩ := ok_of_bind hrest
  obtain ⟨-, -, hrest⟩ := ok_of_bind hrest
  have hblob : built = blob := by
    split at hrest
    · cases hrest
    · exact (Prod.mk.inj (Except.ok.inj hrest)).1
  exact ⟨deviceTree config, plicHandle, hartHandle, controllerHandle config.nrHarts,
    hbuild.trans (congrArg _ hblob), wired_deviceTree config⟩

theorem references_resolve_shipped :
    ∃ (tree : Forest) (plic : Word) (hart controller : Nat → Word),
      tree.build 8192 1024 = .ok (builtFrom 8192 1024 (deviceTree shippedConfig)) ∧
        Wired shippedConfig tree plic hart controller :=
  references_resolve shippedConfig fdtInit_shipped

end Zelda.Proofs.TreeReferences
