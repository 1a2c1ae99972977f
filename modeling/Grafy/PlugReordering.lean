import Grafy.AuthoredGraphs
import Grafy.InputCompleteness
import Grafy.Moves

/-!
The order of a node's input plugs. The canvas moves a plug among those of its
port, which keep their places among the others; the command on the document
moves it in the list of all plugs of the node.
-/
namespace Grafy.AuthoredGraphs

open GraphDocuments InputCompleteness Moves

section Canvas

/-- An index held between the first place and the last. -/
def bounded (toIndex : ℤ) (last : ℕ) : ℕ := (max 0 (min toIndex last)).toNat

/-- `reorderInputPlug` of the canvas; a plug's `portName` is its port here. -/
def reorderInputPlug (inputPlugs : List GraphInputPlug) (portName plugId : String) (toIndex : ℤ) :
    List GraphInputPlug :=
  let portPlugs := inputPlugsForPort inputPlugs portName
  let fromIndex := portPlugs.findIdx (fun plug => plug.id = plugId)
  if fromIndex = portPlugs.length ∨ portPlugs.length < 2 then inputPlugs
  else
    let boundedIndex := bounded toIndex (portPlugs.length - 1)
    if fromIndex = boundedIndex then inputPlugs
    else
      match portPlugs[fromIndex]? with
      | none => inputPlugs
      | some movedPlug =>
        fill (fun plug => plug.port = portName) inputPlugs
          ((portPlugs.eraseIdx fromIndex).insertIdx boundedIndex movedPlug)

end Canvas

variable {plugs : List GraphInputPlug} {plug : GraphInputPlug} {i : ℕ}

section Places

theorem bounded_le (toIndex : ℤ) (last : ℕ) : bounded toIndex last ≤ last := by
  unfold bounded
  omega

/-- The first entry that passes a test is the one at a place when no other passes. -/
theorem findIdx_eq {A : Type} {l : List A} {q : A → Bool} {a : A} (h : l[i]? = some a) (ha : q a)
    (hfirst : ∀ j < i, ∀ b, l[j]? = some b → q b = false) : l.findIdx q = i := by
  obtain ⟨hlt, rfl⟩ := List.getElem?_eq_some_iff.mp h
  refine (List.findIdx_eq hlt).mpr ⟨ha, fun j hj => ?_⟩
  exact hfirst j hj _ (List.getElem?_eq_getElem _)

section

variable (hids : (plugs.map GraphInputPlug.id).Nodup) (h : plugs[i]? = some plug)
include hids h

theorem findIdx_plug {q : GraphInputPlug → Bool} (hplug : q plug)
    (hid : ∀ held, q held → held.id = plug.id) : plugs.findIdx q = i := by
  refine findIdx_eq h hplug fun j hj held hheld => ?_
  by_contra hfound
  have hsame : (plugs.map GraphInputPlug.id)[j]? = (plugs.map GraphInputPlug.id)[i]? := by
    rw [List.getElem?_map, List.getElem?_map, h, hheld, Option.map_some, Option.map_some,
      hid held (by simpa using hfound)]
  have hlt : j < (plugs.map GraphInputPlug.id).length := by
    rw [List.length_map]
    exact (List.getElem?_eq_some_iff.mp hheld).1
  exact Nat.ne_of_lt hj ((List.getElem?_inj hlt hids).mp hsame)

theorem reorderPlugs_eq (toIndex : ℤ) : reorderPlugs plugs plug.port plug.id toIndex =
      some (move plugs i (bounded toIndex (plugs.length - 1))) := by
  have hindex : plugs.findIdx (fun held => held.id = plug.id ∧ held.port = plug.port) = i :=
    findIdx_plug hids h (by simp) (fun held hheld => (of_decide_eq_true hheld).1)
  have hlength : (plugs.eraseIdx i).length = plugs.length - 1 := by
    have := length_eraseIdx_succ h
    omega
  simp only [reorderPlugs, hindex, h, Option.map_some, move_eq h, hlength, bounded]

theorem reorderInputPlug_eq (toIndex : ℤ) :
    reorderInputPlug plugs plug.port plug.id toIndex =
      fill (fun held => held.port = plug.port) plugs
        (move (inputPlugsForPort plugs plug.port)
          ((plugs.take i).countP (fun held => held.port = plug.port))
          (bounded toIndex ((inputPlugsForPort plugs plug.port).length - 1))) := by
  have hplace : (inputPlugsForPort plugs plug.port)[(plugs.take i).countP
      (fun held => held.port = plug.port)]? = some plug :=
    getElem?_filter h (by simp)
  have hportIds : ((inputPlugsForPort plugs plug.port).map GraphInputPlug.id).Nodup :=
    hids.sublist (List.filter_sublist.map _)
  have hindex : (inputPlugsForPort plugs plug.port).findIdx (fun held => held.id = plug.id) =
      (plugs.take i).countP (fun held => held.port = plug.port) :=
    findIdx_plug hportIds hplace (by simp) (fun held hheld => of_decide_eq_true hheld)
  have hlt := (List.getElem?_eq_some_iff.mp hplace).1
  have hstays : fill (fun held => held.port = plug.port) plugs
      (inputPlugsForPort plugs plug.port) = plugs := fill_filter (Kept.refl _ plugs)
  simp only [reorderInputPlug, hindex]
  split_ifs with hnone hsame
  · have honly : (plugs.take i).countP (fun held => held.port = plug.port) =
        bounded toIndex ((inputPlugsForPort plugs plug.port).length - 1) := by
      have := bounded_le toIndex ((inputPlugsForPort plugs plug.port).length - 1)
      omega
    rw [← honly, move_self hplace, hstays]
  · rw [← hsame, move_self hplace, hstays]
  · rw [hplace, move_eq hplace]

end

end Places

section Agreement

/-- Only the plugs of the port are permuted: those of other ports keep their places. -/
structure PermutesPort (plugs : List GraphInputPlug) (port : String)
    (reordered : List GraphInputPlug) : Prop where
  perm : reordered.Perm plugs
  others : ∀ (k : ℕ) plug, plugs[k]? = some plug → plug.port ≠ port → reordered[k]? = some plug

/-- The document's order is that of the canvas, and both permute the port only. -/
structure Agrees (plugs : List GraphInputPlug) (port : String)
    (document canvas : List GraphInputPlug) : Prop where
  same : document = canvas
  document : PermutesPort plugs port document
  canvas : PermutesPort plugs port canvas

/-- The index means the same place in the list of all plugs as among those of
the port: only plugs of the port lie between the plug and that place, and as many
others of the port stand before it as the index, held within the port, says. -/
structure SamePlace (plugs : List GraphInputPlug) (port : String) (i : ℕ) (toIndex : ℤ) : Prop where
  between : ∀ (k : ℕ) held, min i (bounded toIndex (plugs.length - 1)) ≤ k →
    k ≤ max i (bounded toIndex (plugs.length - 1)) → plugs[k]? = some held → held.port = port
  before : ((plugs.eraseIdx i).take (bounded toIndex (plugs.length - 1))).countP
      (fun held => held.port = port) =
    bounded toIndex ((inputPlugsForPort plugs port).length - 1)

variable {toIndex : ℤ}

section

variable (hids : (plugs.map GraphInputPlug.id).Nodup) (h : plugs[i]? = some plug)
include hids h

theorem permutesPort_canvas (toIndex : ℤ) :
    PermutesPort plugs plug.port (reorderInputPlug plugs plug.port plug.id toIndex) := by
  have hplace : (inputPlugsForPort plugs plug.port)[(plugs.take i).countP
      (fun held => held.port = plug.port)]? = some plug :=
    getElem?_filter h (by simp)
  have hlt := (List.getElem?_eq_some_iff.mp hplace).1
  have hperm := move_perm (inputPlugsForPort plugs plug.port)
    ((plugs.take i).countP (fun held => held.port = plug.port))
    (bounded toIndex ((inputPlugsForPort plugs plug.port).length - 1))
    (by have := bounded_le toIndex ((inputPlugsForPort plugs plug.port).length - 1); omega)
  rw [reorderInputPlug_eq hids h]
  exact ⟨fill_perm hperm, fun k held hheld hport =>
    (Fits.of_perm hperm).fill.2.others k held hheld (by simpa using hport)⟩

/-- The two orders agree exactly where the index means the same place. -/
theorem agrees_iff :
    Agrees plugs plug.port (move plugs i (bounded toIndex (plugs.length - 1)))
      (reorderInputPlug plugs plug.port plug.id toIndex) ↔
    SamePlace plugs plug.port i toIndex := by
  have hlt := (List.getElem?_eq_some_iff.mp h).1
  have hj : bounded toIndex (plugs.length - 1) < plugs.length := by
    have := bounded_le toIndex (plugs.length - 1)
    omega
  have hplace : (inputPlugsForPort plugs plug.port)[(plugs.take i).countP
      (fun held => held.port = plug.port)]? = some plug :=
    getElem?_filter h (by simp)
  have hk : bounded toIndex ((inputPlugsForPort plugs plug.port).length - 1) <
      (inputPlugsForPort plugs plug.port).length := by
    have := bounded_le toIndex ((inputPlugsForPort plugs plug.port).length - 1)
    have := (List.getElem?_eq_some_iff.mp hplace).1
    omega
  have hcanvas := permutesPort_canvas hids h toIndex
  have hiff := move_eq_fill_iff (p := fun held : GraphInputPlug => held.port = plug.port)
    (hids.of_map _) h (by simp) hj hk
  constructor
  · intro hagrees
    obtain ⟨hbetween, hbefore⟩ := hiff.mp (hagrees.same.trans (reorderInputPlug_eq hids h toIndex))
    refine ⟨fun k held hmin hmax hheld => ?_, hbefore⟩
    simpa [hheld] using hbetween k hmin hmax
  · intro hsame
    have heq : move plugs i (bounded toIndex (plugs.length - 1)) =
        reorderInputPlug plugs plug.port plug.id toIndex := by
      rw [reorderInputPlug_eq hids h]
      refine hiff.mpr ⟨fun k hmin hmax => ?_, hsame.before⟩
      have hkth : k < plugs.length := by omega
      have hheld := List.getElem?_eq_getElem hkth
      simp [hheld, hsame.between k _ hmin hmax hheld]
    exact ⟨heq, heq ▸ hcanvas, hcanvas⟩

end

end Agreement

section Document

variable {document : AuthoredGraphDocument} {node : GraphNode} {plug : GraphInputPlug}

/-- An update that does not throw at the node changes that node alone. -/
theorem updateNode_of_some (document : AuthoredGraphDocument)
    (hnodes : (document.nodes.map GraphNode.id).Nodup) (hnode : node ∈ document.nodes)
    (update : GraphNode → Option GraphNode) {changed : GraphNode}
    (hchanged : update node = some changed) :
    updateNode document node.id update = some { document with
      nodes := document.nodes.map (fun held => if held.id = node.id then changed else held) } := by
  have hfound : nodeOrThrow document node.id = some node :=
    Loops.find?_by_key GraphNode.id hnodes hnode
  have hmap : document.nodes.mapM (fun held =>
      if held.id = node.id then update held else some held) =
      some (document.nodes.map (fun held => if held.id = node.id then changed else held)) := by
    refine Loops.mapM_some_eq_map fun held hheld => ?_
    split_ifs with hid
    · rw [List.inj_on_of_nodup_map hnodes hheld hnode hid, hchanged]
    · rfl
  simp only [updateNode, hfound, hmap]
  rfl

/-- The node with its plug at place `i` moved in the list of all its plugs. -/
def reorderedNode (node : GraphNode) (i : ℕ) (toIndex : ℤ) : GraphNode :=
  { node with inputPlugs := move node.inputPlugs i (bounded toIndex (node.inputPlugs.length - 1)) }

/-- Applying the command of a plug that is there gives its node the moved plugs. -/
theorem applyGraphCommand_reordered (hnodes : (document.nodes.map GraphNode.id).Nodup)
    (hnode : node ∈ document.nodes) (hids : (node.inputPlugs.map GraphInputPlug.id).Nodup)
    (h : node.inputPlugs[i]? = some plug) (toIndex : ℤ) :
    ∃ document', applyGraphCommand document (.reorderInputPlug node.id plug.port plug.id toIndex) =
        some document' ∧
      nodeOrThrow document' node.id = some (reorderedNode node i toIndex) := by
  have hreordered : (reorderPlugs node.inputPlugs plug.port plug.id toIndex).map (fun plugs =>
      { node with inputPlugs := plugs }) = some (reorderedNode node i toIndex) := by
    rw [reorderPlugs_eq hids h]
    rfl
  have hupdated := updateNode_of_some { document with name := trimmed document.name } hnodes hnode
    (fun held => (reorderPlugs held.inputPlugs plug.port plug.id toIndex).map (fun plugs =>
      { held with inputPlugs := plugs })) hreordered
  refine ⟨_, (congrArg (fun normal => applyGraphCommandNormalized normal
    (.reorderInputPlug node.id plug.port plug.id toIndex))
    (authored_createGraphDraft document none)).trans hupdated, ?_⟩
  have hmem : reorderedNode node i toIndex ∈ document.nodes.map (fun held =>
      if held.id = node.id then reorderedNode node i toIndex else held) :=
    List.mem_map.mpr ⟨node, hnode, if_pos rfl⟩
  refine Loops.find?_by_key GraphNode.id ?_ hmem
  have hsame : (document.nodes.map (fun held =>
      if held.id = node.id then reorderedNode node i toIndex else held)).map GraphNode.id =
        document.nodes.map GraphNode.id := by
    rw [List.map_map]
    refine List.map_congr_left fun held _ => ?_
    rw [Function.comp_apply]
    split_ifs with hid
    · exact hid.symm
    · rfl
  rw [hsame]
  exact hnodes

/-- For a node whose plugs have distinct ids, a plug of it and an index: the
command gives the plugs the order that the canvas shows, and both permute the
plugs of the port only, exactly where the index means the same place among all
plugs as among those of the port. -/
theorem reordered_agrees_iff (hnodes : (document.nodes.map GraphNode.id).Nodup)
    (hnode : node ∈ document.nodes) (hids : (node.inputPlugs.map GraphInputPlug.id).Nodup)
    {i : ℕ} (h : node.inputPlugs[i]? = some plug) (toIndex : ℤ) :
    (∃ document' held,
      applyGraphCommand document (.reorderInputPlug node.id plug.port plug.id toIndex) =
        some document' ∧ nodeOrThrow document' node.id = some held ∧
      Agrees node.inputPlugs plug.port held.inputPlugs
        (reorderInputPlug node.inputPlugs plug.port plug.id toIndex)) ↔
    SamePlace node.inputPlugs plug.port i toIndex := by
  obtain ⟨document', happlied, hheld⟩ := applyGraphCommand_reordered hnodes hnode hids h toIndex
  rw [← agrees_iff hids h]
  constructor
  · rintro ⟨document'', held, happlied', hheld', hagrees⟩
    cases happlied.symm.trans happlied'
    cases hheld.symm.trans hheld'
    exact hagrees
  · exact fun hagrees => ⟨document', _, happlied, hheld, hagrees⟩

/-- Three plugs of one port with one of another among them. -/
def mixedNode : GraphNode := { (default : GraphNode) with
  id := "n"
  inputPlugs := [⟨"a", "items"⟩, ⟨"b", "items"⟩, ⟨"note", "note"⟩, ⟨"c", "items"⟩] }

def mixedDocument : AuthoredGraphDocument := ⟨"g", [mixedNode], [], [], []⟩

theorem mixedNode_mem : mixedNode ∈ mixedDocument.nodes := List.mem_singleton_self _

theorem mixedNode_agrees : ∃ document' held,
    applyGraphCommand mixedDocument (.reorderInputPlug "n" "items" "a" 1) = some document' ∧
      nodeOrThrow document' "n" = some held ∧
      Agrees mixedNode.inputPlugs "items" held.inputPlugs
        (reorderInputPlug mixedNode.inputPlugs "items" "a" 1) := by
  have hplug : mixedNode.inputPlugs[0]? = some ⟨"a", "items"⟩ := rfl
  refine (reordered_agrees_iff (by decide) mixedNode_mem (by decide) hplug 1).mpr ⟨?_, by decide⟩
  intro k held hmin hmax hheld
  have hk : k = 0 ∨ k = 1 := by
    have : bounded 1 (mixedNode.inputPlugs.length - 1) = 1 := by decide
    omega
  rcases hk with rfl | rfl <;> (obtain rfl := Option.some.inj hheld; rfl)

/-- The last plug of the port moved to its first place but one: the canvas leaves
the plug of the other port where it is, the command moves it along. -/
theorem mixedNode_disagrees : ¬ ∀ (document : AuthoredGraphDocument) (node : GraphNode)
    (plug : GraphInputPlug) (toIndex : ℤ), (document.nodes.map GraphNode.id).Nodup →
    node ∈ document.nodes → (node.inputPlugs.map GraphInputPlug.id).Nodup →
    plug ∈ node.inputPlugs → ∃ document' held,
      applyGraphCommand document (.reorderInputPlug node.id plug.port plug.id toIndex) =
        some document' ∧ nodeOrThrow document' node.id = some held ∧
      Agrees node.inputPlugs plug.port held.inputPlugs
        (reorderInputPlug node.inputPlugs plug.port plug.id toIndex) := by
  intro hclaim
  have hplug : mixedNode.inputPlugs[3]? = some ⟨"c", "items"⟩ := rfl
  obtain ⟨document', held, happlied, hheld, hagrees⟩ := hclaim mixedDocument mixedNode
    ⟨"c", "items"⟩ 1 (by decide) mixedNode_mem (by decide) (List.mem_of_getElem? hplug)
  obtain ⟨document'', happlied', hheld'⟩ :=
    applyGraphCommand_reordered (by decide) mixedNode_mem (by decide) hplug 1
  cases happlied.symm.trans happlied'
  cases hheld.symm.trans hheld'
  have hplace := (agrees_iff (by decide) hplug).mp hagrees
  have hnote := hplace.between 2 ⟨"note", "note"⟩ (by decide) (by decide) rfl
  exact absurd hnote (by decide)

end Document

end Grafy.AuthoredGraphs
