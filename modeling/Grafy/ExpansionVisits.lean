import Grafy.Expansion

/-!
The occurrences of Graphs under a target and the lookups of one Graph. A chain
of call nodes leads from a Graph to each Graph beneath it; the walk visits
every chain once, a caller before its callees, and never fails on a
well-formed document. The indexes find a node by its id and a boundary node
by its public name.
-/
namespace Grafy.Expansion

open Fingerprints GraphDocuments Loops OrderedDict Project

variable {start graph : GraphDefinition} {path : List String} {node : GraphNode}

section Chains

variable {project : ProjectDocument}

/-- The chain of call nodes with these ids leads from one Graph to another. -/
inductive Calls (project : ProjectDocument) (start : GraphDefinition) :
    List String → GraphDefinition → Prop
  | here : Calls project start [] start
  | call {path : List String} {graph callee : GraphDefinition} {node : GraphNode} :
      Calls project start path graph → node ∈ graph.document.nodes → isCall node →
      project.getGraph node.operatorId = some callee → Calls project start
        (path ++ [node.id]) callee

namespace Calls

variable {middle : GraphDefinition} {path' : List String}

theorem trans (h : Calls project start path middle) (h' : Calls project middle path' graph) :
    Calls project start (path ++ path') graph := by
  induction h' with
  | here => simpa using h
  | call _ hnode hcall hcallee ih =>
    rw [← List.append_assoc]
    exact ih.call hnode hcall hcallee

theorem eq_of_nil (h : Calls project start [] graph) : graph = start := by
  generalize hlist : ([] : List String) = list at h
  cases h with
  | here => rfl
  | call => simp at hlist

theorem exists_head {first : String} (h : Calls project start (first :: path) graph) :
    ∃ node callee, node ∈ start.document.nodes ∧ isCall node ∧ node.id = first ∧
      project.getGraph node.operatorId = some callee ∧ Calls project callee path graph := by
  generalize hlist : first :: path = list at h
  induction h generalizing path with
  | here => simp at hlist
  | @call list' graph' callee' node hlast hnode hcall hcallee ih =>
    rcases List.eq_nil_or_concat path with rfl | ⟨init, last, rfl⟩
    · obtain ⟨rfl, heq⟩ := List.append_inj' (show [] ++ [first] = list' ++ [node.id] from hlist) rfl
      obtain rfl : first = node.id := by simpa using heq
      obtain rfl := hlast.eq_of_nil
      exact ⟨node, callee', hnode, hcall, rfl, hcallee, .here⟩
    · rw [List.concat_eq_append, ← List.cons_append] at hlist
      obtain ⟨hinit, heq⟩ := List.append_inj' hlist rfl
      obtain rfl : last = node.id := by simpa using heq
      obtain ⟨node', callee'', hnode', hcall', hid', hcallee', hrest⟩ := ih hinit
      refine ⟨node', callee'', hnode', hcall', hid', hcallee', ?_⟩
      rw [List.concat_eq_append]
      exact hrest.call hnode hcall hcallee

theorem mem_graphs (hstart : start ∈ project.graphs) (h : Calls project start path graph) :
    graph ∈ project.graphs := by
  cases h with
  | here => exact hstart
  | call _ _ _ hcallee => exact List.mem_of_find?_eq_some hcallee

end Calls

theorem getGraph_id {graphId : String} (h : project.getGraph graphId = some graph) :
    graph.id = graphId := by
  have hfound := List.find?_some h
  simpa using hfound

theorem getGraph_of_mem (hids : (project.graphs.map GraphDefinition.id).Nodup)
    (hgraph : graph ∈ project.graphs) : project.getGraph graph.id = some graph := by
  cases hfind : project.getGraph graph.id with
  | none =>
    have hnone := List.find?_eq_none.mp hfind graph hgraph
    simp at hnone
  | some found =>
    have hmem := List.mem_of_find?_eq_some hfind
    exact congrArg some (List.inj_on_of_nodup_map hids hmem hgraph (getGraph_id hfind))

theorem exists_callee (h : WellFormed project) (hgraph : graph ∈ project.graphs)
    (hnode : node ∈ graph.document.nodes) (hcall : isCall node) :
    ∃ callee ∈ project.graphs, project.getGraph node.operatorId = some callee := by
  obtain ⟨callee, hcallee, hid⟩ := List.mem_map.mp (h.calleeKnown graph hgraph node hnode hcall)
  exact ⟨callee, hcallee, hid ▸ getGraph_of_mem h.ids hcallee⟩

end Chains

section Walk

variable {project : ProjectDocument} {callPath : List String} {found : List Visit}

/-- The visits under a node of the walk: none unless it is a call. -/
theorem visits_succ_ok {fuel : ℕ} (h : visits project (fuel + 1) graph callPath = .ok found) :
    ∃ below, found = ⟨graph, callPath⟩ :: below.flatten ∧
      List.Forall₂ (fun node part => (isCall node = false ∧ part = []) ∨
        (isCall node = true ∧ ∃ callee, project.getGraph node.operatorId = some callee ∧
          visits project fuel callee (callPath ++ [node.id]) = .ok part))
        graph.document.nodes below := by
  simp only [visits] at h
  obtain ⟨below, hbelow, hlast⟩ := bind_ok.mp h
  obtain rfl : _ = found := by simpa [pure, Except.pure] using hlast
  refine ⟨below, rfl, (mapM_ok hbelow).imp ?_⟩
  intro node part hpart
  cases hcall : isCall node with
  | false => exact Or.inl ⟨rfl, by simpa [hcall, eq_comm] using hpart⟩
  | true =>
    simp only [hcall, ↓reduceIte] at hpart
    obtain ⟨callee, hcallee, hpart⟩ := bind_ok.mp hpart
    refine Or.inr ⟨rfl, callee, ?_, hpart⟩
    cases hget : project.getGraph node.operatorId with
    | none => simp [getGraph, hget] at hcallee
    | some callee' => simpa [getGraph, hget] using hcallee

/-- Every visit is at the end of a chain of calls. -/
theorem calls_of_mem_visits (fuel : ℕ) (h : visits project fuel graph callPath = .ok found) :
    ∀ visit ∈ found, ∃ path, visit.callPath = callPath ++ path ∧
      Calls project graph path visit.graph := by
  induction fuel generalizing graph callPath found with
  | zero => simp [visits] at h
  | succ fuel ih =>
    obtain ⟨below, rfl, hbelow⟩ := visits_succ_ok h
    intro visit hvisit
    rcases List.mem_cons.mp hvisit with rfl | hvisit
    · exact ⟨[], by simp, .here⟩
    · obtain ⟨part, hpart, hmem⟩ := List.mem_flatten.mp hvisit
      obtain ⟨node, hnode, hnone | ⟨hcall, callee, hcallee, hrec⟩⟩ :=
        Alignment.exists_left hbelow hpart
      · simp [hnone.2] at hmem
      · obtain ⟨path, hpath, hcalls⟩ := ih hrec visit hmem
        refine ⟨[node.id] ++ path, by simp [hpath], ?_⟩
        exact (Calls.here.call hnode hcall hcallee).trans hcalls

/-- Node ids are unique in a Graph, so no two visits share a call path. -/
theorem visits_nodup (hwf : WellFormed project) (fuel : ℕ) (hgraph : graph ∈ project.graphs)
    (h : visits project fuel graph callPath = .ok found) : (found.map Visit.callPath).Nodup := by
  induction fuel generalizing graph callPath found with
  | zero => simp [visits] at h
  | succ fuel ih =>
    obtain ⟨below, rfl, hbelow⟩ := visits_succ_ok h
    -- the visits under a call node have paths through it
    have hthrough : ∀ node part, ((isCall node = false ∧ part = []) ∨
        (isCall node = true ∧ ∃ callee, project.getGraph node.operatorId = some callee ∧
          visits project fuel callee (callPath ++ [node.id]) = .ok part)) →
        (part.map Visit.callPath).Nodup ∧
          ∀ p ∈ part.map Visit.callPath, ∃ q, p = callPath ++ node.id :: q := by
      rintro node part (⟨-, rfl⟩ | ⟨-, callee, hcallee, hrec⟩)
      · simp
      · refine ⟨ih (List.mem_of_find?_eq_some hcallee) hrec, ?_⟩
        intro p hp
        obtain ⟨visit, hvisit, rfl⟩ := List.mem_map.mp hp
        obtain ⟨path, hpath, -⟩ := calls_of_mem_visits fuel hrec visit hvisit
        exact ⟨path, by simp [hpath]⟩
    rw [List.map_cons, List.nodup_cons, List.map_flatten, List.nodup_flatten]
    refine ⟨?_, ?_, ?_⟩
    · intro hmem
      obtain ⟨part, hpart, hp⟩ := List.mem_flatten.mp hmem
      obtain ⟨part', hpart', rfl⟩ := List.mem_map.mp hpart
      obtain ⟨node, -, hnode⟩ := Alignment.exists_left hbelow hpart'
      obtain ⟨q, hq⟩ := (hthrough node part' hnode).2 _ hp
      have hlen := congrArg List.length hq
      simp at hlen
    · intro part hpart
      obtain ⟨part', hpart', rfl⟩ := List.mem_map.mp hpart
      obtain ⟨node, -, hnode⟩ := Alignment.exists_left hbelow hpart'
      exact (hthrough node part' hnode).1
    · have hdistinct : graph.document.nodes.Pairwise (fun a b => a.id ≠ b.id) :=
        List.pairwise_map.mp (hwf.anchored graph hgraph).nodeIds
      refine List.pairwise_map.mpr (Alignment.pairwise hbelow ?_ hdistinct)
      intro node part node' part' hnode hnode' hne p hp hp'
      obtain ⟨q, hq⟩ := (hthrough node part hnode).2 p hp
      obtain ⟨q', hq'⟩ := (hthrough node' part' hnode').2 p hp'
      have heq := List.append_cancel_left (hq.symm.trans hq')
      exact hne (List.cons.inj heq).1

section

variable (fuel : ℕ) (h : visits project fuel start callPath = .ok found)
  (hcalls : Calls project start path graph)
include fuel h hcalls

/-- A visit is made of every chain, and a caller is visited before its callee. -/
theorem caller_before_callee {callee : GraphDefinition} (hnode : node ∈ graph.document.nodes)
    (hcall : isCall node) (hcallee : project.getGraph node.operatorId = some callee) :
    [⟨graph, callPath ++ path⟩, ⟨callee, callPath ++ path ++ [node.id]⟩].Sublist found := by
  induction fuel generalizing start callPath found path with
  | zero => simp [visits] at h
  | succ fuel ih =>
    obtain ⟨below, rfl, hbelow⟩ := visits_succ_ok h
    cases path with
    | nil =>
      obtain rfl := hcalls.eq_of_nil
      rw [List.append_nil]
      refine List.Sublist.cons_cons _ (List.singleton_sublist.mpr ?_)
      obtain ⟨part, hpart, ⟨hno, -⟩ | ⟨-, callee', hcallee', hrec⟩⟩ :=
        Alignment.exists_right hbelow hnode
      · simp [hno] at hcall
      · cases hcallee.symm.trans hcallee'
        cases fuel with
        | zero => simp [visits] at hrec
        | succ fuel =>
          obtain ⟨_, rfl, -⟩ := visits_succ_ok hrec
          exact List.mem_flatten.mpr ⟨_, hpart, by simp⟩
    | cons first path =>
      obtain ⟨head, middle, hhead, hheadcall, rfl, hmiddle, hrest⟩ := hcalls.exists_head
      obtain ⟨part, hpart, ⟨hno, -⟩ | ⟨-, callee', hcallee', hrec⟩⟩ :=
        Alignment.exists_right hbelow hhead
      · simp [hno] at hheadcall
      · cases hmiddle.symm.trans hcallee'
        have hsub := ih hrec hrest
        refine List.Sublist.cons _ ?_
        refine List.Sublist.trans ?_ (List.sublist_flatten_of_mem hpart)
        simpa using hsub

theorem mem_visits_of_calls : ⟨graph, callPath ++ path⟩ ∈ found := by
  cases hcalls with
  | here =>
    cases fuel with
    | zero => simp [visits] at h
    | succ fuel =>
      obtain ⟨_, rfl, -⟩ := visits_succ_ok h
      simp
  | call hcalls hnode hcall hcallee =>
    have hpair := caller_before_callee fuel h hcalls hnode hcall hcallee
    rw [← List.append_assoc]
    exact hpair.subset (by simp)

end

theorem visits_exists (hwf : WellFormed project) {rank : String → ℕ}
    (hrank : ∀ graph ∈ project.graphs, ∀ node ∈ graph.document.nodes, isCall node → rank
      node.operatorId < rank graph.id) (fuel : ℕ) (callPath : List String)
    (hgraph : graph ∈ project.graphs) (hfuel : rank graph.id < fuel) :
    ∃ found, visits project fuel graph callPath = .ok found := by
  induction fuel generalizing graph callPath with
  | zero => omega
  | succ fuel ih =>
    have hparts : ∀ node ∈ graph.document.nodes, ∃ part,
        (if isCall node then do
          let callee ← getGraph project node.operatorId
          visits project fuel callee (callPath ++ [node.id])
        else (.ok [] : Except ExpansionError (List Visit))) = .ok part := by
      intro node hnode
      cases hcall : isCall node with
      | false => exact ⟨[], by simp⟩
      | true =>
        obtain ⟨callee, hmem, hcallee⟩ := exists_callee hwf hgraph hnode hcall
        have hlower := hrank graph hgraph node hnode hcall
        have hid := getGraph_id hcallee
        obtain ⟨part, hpart⟩ := ih (callPath ++ [node.id]) hmem (by rw [hid]; omega)
        refine ⟨part, ?_⟩
        simp only [↓reduceIte]
        exact bind_ok.mpr ⟨callee, by simp [getGraph, hcallee], hpart⟩
    obtain ⟨below, hbelow⟩ := mapM_exists hparts
    exact ⟨⟨graph, callPath⟩ :: below.flatten, bind_ok.mpr ⟨below, hbelow, rfl⟩⟩

end Walk

variable {name : String}

section Lookups

variable {project : ProjectDocument} {graph : GraphDefinition}

def isInput (node : GraphNode) : Bool := node.operatorId = graphInputOperatorId

def isOutput (node : GraphNode) : Bool := node.operatorId = graphOutputOperatorId

theorem input_ne_output : graphInputOperatorId ≠ graphOutputOperatorId := by decide

theorem foldl_indexNode (nodes : List GraphNode) (start : GraphIndex) :
    nodes.foldl indexNode start =
      { graph := start.graph
        nodes := nodes.foldl (fun d node => d.set node.id node) start.nodes
        inputs := (nodes.filter isInput).foldl (fun d node => d.set (publicName node) node)
          start.inputs
        outputs := (nodes.filter isOutput).foldl (fun d node => d.set (publicName node) node)
          start.outputs } := by
  induction nodes generalizing start with
  | nil => rfl
  | cons node rest ih =>
    rw [List.foldl_cons, ih]
    by_cases hin : node.operatorId = graphInputOperatorId
    · simp [indexNode, isInput, isOutput, hin, input_ne_output]
    · by_cases hout : node.operatorId = graphOutputOperatorId
      · simp [indexNode, isInput, isOutput, hout, input_ne_output.symm]
      · simp [indexNode, isInput, isOutput, hin, hout]

@[simp] theorem index_graph : (index graph).graph = graph := by
  simp [index, foldl_indexNode]

/-- A node by its id. -/
def nodeNamed (graph : GraphDefinition) (id : String) : Option GraphNode :=
    (index graph).nodes.get? id

/-- The boundary node behind a declared input. -/
def declaredInput (graph : GraphDefinition) (name : String) : Option GraphNode :=
  (index graph).inputs.get? name

/-- The boundary node behind a declared output. -/
def declaredOutput (graph : GraphDefinition) (name : String) : Option GraphNode :=
  (index graph).outputs.get? name

variable (hwf : WellFormed project) (hgraph : graph ∈ project.graphs)
include hwf hgraph

theorem nodeNamed_iff {id : String} :
    nodeNamed graph id = some node ↔ node ∈ graph.document.nodes ∧ node.id = id := by
  simp only [nodeNamed, index, foldl_indexNode]
  exact Dict.get?_foldl_set_iff GraphNode.id (hwf.anchored graph hgraph).nodeIds

theorem publicNames_nodup (chosen : GraphNode → Bool) (direction : Direction)
    (hchosen : ∀ node, chosen node → isBoundary node ∧ directionOf node = direction) :
    ((graph.document.nodes.filter chosen).map publicName).Nodup := by
  have hsub : (graph.document.nodes.filter chosen).Sublist
      (graph.document.nodes.filter isBoundary) := by
    have heq : graph.document.nodes.filter chosen =
        (graph.document.nodes.filter isBoundary).filter chosen := by
      rw [List.filter_filter]
      apply List.filter_congr
      intro node _
      cases h : chosen node with
      | false => rfl
      | true => simp [(hchosen node h).1]
    rw [heq]
    exact List.filter_sublist
  have hslots := (hwf.publicNames graph hgraph).sublist (hsub.map interfaceSlot)
  have hpair : (graph.document.nodes.filter chosen).map interfaceSlot =
      ((graph.document.nodes.filter chosen).map publicName).map
        (fun name => (direction, name)) := by
    rw [List.map_map]
    apply List.map_congr_left
    intro node hnode
    simp [interfaceSlot, (hchosen node (List.mem_filter.mp hnode).2).2]
  rw [hpair] at hslots
  exact List.Nodup.of_map _ hslots

theorem declaredInput_iff :
    declaredInput graph name = some node ↔
      node ∈ graph.document.nodes ∧ isInput node ∧ publicName node = name := by
  have hnodup := publicNames_nodup hwf hgraph isInput .input (by
    intro node hin
    have hop : node.operatorId = graphInputOperatorId := by simpa [isInput] using hin
    exact ⟨by simp [isBoundary, hop], by simp [directionOf, hop]⟩)
  simp only [declaredInput, index, foldl_indexNode]
  rw [Dict.get?_foldl_set_iff publicName hnodup, List.mem_filter, and_assoc]

theorem declaredOutput_iff :
    declaredOutput graph name = some node ↔
      node ∈ graph.document.nodes ∧ isOutput node ∧ publicName node = name := by
  have hnodup := publicNames_nodup hwf hgraph isOutput .output (by
    intro node hout
    have hop : node.operatorId = graphOutputOperatorId := by simpa [isOutput] using hout
    exact ⟨by simp [isBoundary, hop], by simp [directionOf, hop, input_ne_output.symm]⟩)
  simp only [declaredOutput, index, foldl_indexNode]
  rw [Dict.get?_foldl_set_iff publicName hnodup, List.mem_filter, and_assoc]

/-- Boundary nodes are instances: they are never call nodes. -/
theorem isCall_of_boundary {node : GraphNode} (hnode : node ∈ graph.document.nodes)
    (h : isInput node ∨ isOutput node) : isCall node = false := by
  have hboundary : isBoundary node := by
    rcases h with h | h
    · simp only [isInput, decide_eq_true_eq] at h
      simp [isBoundary, h]
    · simp only [isOutput, decide_eq_true_eq] at h
      simp [isBoundary, h]
  simp [isCall, hwf.boundaryKind graph hgraph node hnode hboundary]

end Lookups

end Grafy.Expansion
