import Grafy.ExpansionInstances
import Mathlib.Data.Multiset.Bind
import Mathlib.Data.Fintype.EquivFin

/-!
Textual inlining. A Graph is written out flat by replacing every call node
with a copy of the flat text of its callee, whose places move one call deeper,
and by joining the edges drawn at the call to the boundary nodes of the copy.
The expansion of a Graph is this text: it has one instance for each place, one
connection for each wire, and so the same data flow.
-/
namespace Grafy.Inlining

open Expansion Fingerprints GraphDocuments Instances OrderedDict Project

/-- A node of the text: the call nodes it was copied through, and the node. -/
structure Place where
  path : List String
  graphId : String
  nodeId : String

structure Wire where
  source : Place
  target : Place
  edge : GraphEdge

structure FlatGraph where
  nodes : List (Place × GraphNode)
  wires : List Wire

section Text

def Place.beneath (path : List String) (place : Place) : Place :=
  { place with path := path ++ place.path }

def Wire.beneath (path : List String) (wire : Wire) : Wire :=
  { wire with source := wire.source.beneath path, target := wire.target.beneath path }

def FlatGraph.beneath (path : List String) (flat : FlatGraph) : FlatGraph where
  nodes := flat.nodes.map (fun entry => (entry.1.beneath path, entry.2))
  wires := flat.wires.map (Wire.beneath path)

def nodeOf (graph : GraphDefinition) (id : String) : Option GraphNode :=
  graph.document.nodes.find? (fun node => node.id = id)

def inputOf (graph : GraphDefinition) (name : String) : Option GraphNode :=
  graph.document.nodes.find? (fun node => isInput node && publicName node = name)

def outputOf (graph : GraphDefinition) (name : String) : Option GraphNode :=
  graph.document.nodes.find? (fun node => isOutput node && publicName node = name)

variable (project : ProjectDocument)

/-- Where an edge leaves: its own node and port, or the output boundary the
callee declares under the name of the port. -/
def outlet (graph : GraphDefinition) (edge : GraphEdge) : Option (Place × GraphEdge) := do
  let node ← nodeOf graph edge.fromNode
  if isCall node then
    let callee ← project.getGraph node.operatorId
    let boundary ← outputOf callee edge.fromPort
    return (⟨[node.id], callee.id, boundary.id⟩, { edge with fromPort := graphBoundaryPort })
  else return (⟨[], graph.id, node.id⟩, edge)

/-- Where an edge arrives: its own node, port and plug, or the input boundary
the callee declares under the name of the port. -/
def inlet (graph : GraphDefinition) (edge : GraphEdge) : Option (Place × GraphEdge) := do
  let node ← nodeOf graph edge.toNode
  if isCall node then
    let callee ← project.getGraph node.operatorId
    let boundary ← inputOf callee edge.toPort
    return (⟨[node.id], callee.id, boundary.id⟩,
      { edge with toPort := graphBoundaryPort, toPlug := none })
  else return (⟨[], graph.id, node.id⟩, edge)

/-- The wire of an enabled edge whose endpoints resolve. -/
def splice (graph : GraphDefinition) (edge : GraphEdge) : Option Wire :=
  if edge.enabled then do
    let target ← inlet project graph edge
    let source ← outlet project graph target.2
    return ⟨source.1, target.1, source.2⟩
  else none

/-- The flat text of a Graph. Calls lower the rank of a Graph, so as many
steps as there are Graphs are enough. -/
def inline : ℕ → GraphDefinition → FlatGraph
  | 0, _ => ⟨[], []⟩
  | fuel + 1, graph =>
    let copies := graph.document.nodes.filterMap (fun node =>
      if isCall node then
        (project.getGraph node.operatorId).map (fun callee =>
          (inline fuel callee).beneath [node.id])
      else none)
    { nodes := (graph.document.nodes.filter (fun node => !isCall node)).map
        (fun node => (⟨[], graph.id, node.id⟩, node)) ++ copies.flatMap FlatGraph.nodes
      wires := graph.document.edges.filterMap (splice project graph) ++
        copies.flatMap FlatGraph.wires }

end Text

section Places

@[simp] theorem Place.beneath_beneath (path path' : List String) (place : Place) :
    (place.beneath path').beneath path = place.beneath (path ++ path') := by
  simp [Place.beneath]

@[simp] theorem Wire.beneath_nil (wire : Wire) : wire.beneath [] = wire := rfl

@[simp] theorem Wire.beneath_beneath (path path' : List String) (wire : Wire) :
    (wire.beneath path').beneath path = wire.beneath (path ++ path') := by
  simp [Wire.beneath]

variable (projectId : String)

def Place.key (place : Place) : InstanceKey :=
  ⟨projectId, place.graphId, place.path, place.nodeId, none⟩

/-- A wire as the connection that arrives at its target. -/
def Wire.arrival (wire : Wire) : InstanceKey × Connection :=
  (wire.target.key projectId, ⟨wire.source.key projectId, wire.edge⟩)

end Places

variable {project : ProjectDocument} {graph : GraphDefinition}

section Resolution

/-- A lookup that finds the one node of a kind is the search for it. -/
theorem find?_eq_of_iff {lookup : Option GraphNode} {chosen : GraphNode → Bool}
    {nodes : List GraphNode}
    (h : ∀ node, lookup = some node ↔ node ∈ nodes ∧ chosen node) :
      lookup = nodes.find? chosen := by
  cases hfind : nodes.find? chosen with
  | none =>
    cases hlookup : lookup with
    | none => rfl
    | some node =>
      obtain ⟨hnode, hchosen⟩ := (h node).mp hlookup
      exact absurd hchosen (List.find?_eq_none.mp hfind node hnode)
  | some node => exact (h node).mpr ⟨List.mem_of_find?_eq_some hfind, List.find?_some hfind⟩

variable (hwf : WellFormed project) (hgraph : graph ∈ project.graphs)
include hwf hgraph

theorem nodeNamed_eq (id : String) : nodeNamed graph id = nodeOf graph id := by
  apply find?_eq_of_iff
  intro node
  simpa using nodeNamed_iff hwf hgraph

theorem declaredInput_eq (name : String) : declaredInput graph name = inputOf graph name := by
  apply find?_eq_of_iff
  intro node
  simpa using declaredInput_iff hwf hgraph

theorem declaredOutput_eq (name : String) : declaredOutput graph name = outputOf graph name := by
  apply find?_eq_of_iff
  intro node
  simpa using declaredOutput_iff hwf hgraph

variable (projectId : String) (path : List String)

theorem sourceOf_eq (edge : GraphEdge) :
    connectionOf project projectId ⟨graph, path⟩ edge =
      (outlet project graph edge).map (fun source =>
        ⟨(source.1.beneath path).key projectId, source.2⟩) := by
  unfold connectionOf sourceOf outlet
  rw [nodeNamed_eq hwf hgraph]
  cases hnode : nodeOf graph edge.fromNode with
  | none => rfl
  | some node =>
    have hmem : node ∈ graph.document.nodes := List.mem_of_find?_eq_some hnode
    cases hcall : isCall node with
    | false => simp [sourceAt, hcall, keyAt, Place.key, Place.beneath]
    | true =>
      obtain ⟨callee, hcallee, hget⟩ := exists_callee hwf hgraph hmem hcall
      simp only [Option.bind_some, sourceAt, hcall, ↓reduceIte, hget, declaredOutput_eq hwf hcallee]
      cases hout : outputOf callee edge.fromPort with
      | none => simp [hcall, hget, hout]
      | some boundary => simp [hcall, hget, hout, keyAt, Place.key, Place.beneath]

theorem targetOf_eq (edge : GraphEdge) :
    (targetOf project projectId ⟨graph, path⟩ edge.toNode edge.toPort).map (fun found =>
        (found.1, if found.2 then atBoundary edge else edge)) =
      (inlet project graph edge).map (fun target =>
        ((target.1.beneath path).key projectId, target.2)) := by
  unfold targetOf inlet
  rw [nodeNamed_eq hwf hgraph]
  cases hnode : nodeOf graph edge.toNode with
  | none => rfl
  | some node =>
    have hmem : node ∈ graph.document.nodes := List.mem_of_find?_eq_some hnode
    cases hcall : isCall node with
    | false => simp [targetAt, hcall, keyAt, Place.key, Place.beneath]
    | true =>
      obtain ⟨callee, hcallee, hget⟩ := exists_callee hwf hgraph hmem hcall
      simp only [Option.bind_some, targetAt, hcall, ↓reduceIte, hget, declaredInput_eq hwf hcallee]
      cases hin : inputOf callee edge.toPort with
      | none => simp [hcall, hget, hin]
      | some boundary => simp [hcall, hget, hin, keyAt, Place.key, Place.beneath, atBoundary]

/-- The connection of an edge, with the instance it arrives at. -/
theorem splice_eq (edge : GraphEdge) :
    (splice project graph edge).map (fun wire => (wire.beneath path).arrival projectId) =
      if edge.enabled then
        (targetOf project projectId ⟨graph, path⟩ edge.toNode edge.toPort).bind (fun found =>
          (connectionOf project projectId ⟨graph, path⟩
            (if found.2 then atBoundary edge else edge)).map (fun connection =>
              (found.1, connection)))
      else none := by
  unfold splice
  cases henabled : edge.enabled with
  | false => rfl
  | true =>
    have htarget := targetOf_eq hwf hgraph projectId path edge
    simp only [↓reduceIte]
    cases hfound : targetOf project projectId ⟨graph, path⟩ edge.toNode edge.toPort with
    | none =>
      have hnone : inlet project graph edge = none := by simpa [hfound] using htarget.symm
      simp [hnone]
    | some found =>
      rw [hfound, Option.map_some] at htarget
      obtain ⟨target, hinlet, hpair⟩ := Option.map_eq_some_iff.mp htarget.symm
      obtain ⟨hkey, hedge⟩ := Prod.mk.inj hpair
      rw [Option.bind_some, ← hedge, sourceOf_eq hwf hgraph, hinlet, ← hkey]
      cases hsource : outlet project graph target.2 with
      | none => simp [hsource]
      | some source => simp [hsource, Wire.arrival, Wire.beneath]

end Resolution

variable {A B : Type*} {target : GraphDefinition} {found : List Visit} {projectId : String}
  {expanded : ExpandedGraph} {visit : Visit}

section Arrivals

/-- The connections of an expanded graph, each with the instance it arrives
at. -/
def arrivals (expanded : ExpandedGraph) : List (InstanceKey × Connection) :=
  expanded.order.flatMap (fun key =>
    match expanded.instances.get? key with
    | none => []
    | some inst => inst.connections.map (fun connection => (key, connection)))

/-- The connections the edges of one occurrence stand for. -/
def wiresAt (project : ProjectDocument) (projectId : String) (visit : Visit) :
    List (InstanceKey × Connection) :=
  visit.graph.document.edges.filterMap (fun edge =>
    (splice project visit.graph edge).map (fun wire =>
      (wire.beneath visit.callPath).arrival projectId))

theorem flatMap_comm_perm {C : Type*} (l : List A) (m : List B) (f : A → B → List C) :
    (l.flatMap (fun a => m.flatMap (f a))).Perm
    (m.flatMap (fun b => l.flatMap (fun a => f a b))) := by
  have hswap :
    ((l : Multiset A).bind (fun a => (m : Multiset B).bind (fun b => (f a b : Multiset C)))) =
      (m : Multiset B).bind (fun b => (l : Multiset A).bind (fun a => (f a b : Multiset C))) :=
    Multiset.bind_bind _ _
  simpa only [Multiset.coe_bind, Multiset.coe_eq_coe] using hswap

variable (stage : Stage project target found) (hexp : Expands project target projectId expanded)
include stage hexp

omit hexp in
/-- An instance's connections are gathered over the edges of all occurrences. -/
theorem connections_perm (projectId : String) {caller : Option Site}
    (hplaced : Placed project target caller visit) {node : GraphNode}
    (hnode : node ∈ visit.graph.document.nodes) (hcall : isCall node = false) :
    (instanceOf project projectId caller visit node).connections.Perm
      (found.flatMap (fun v => v.graph.document.edges.flatMap (fun edge =>
        (edgeGain project projectId v (keyAt projectId visit.graph visit.callPath node)
          edge).connections))) := by
  have hgather : (gather found (fun v => visitGain project projectId v
      (keyAt projectId visit.graph visit.callPath node))).connections =
        callerConnections project projectId caller node ++
          drawnConnections project projectId visit (atNode node) false :=
    congrArg Gain.connections (gather_visits stage hplaced hnode hcall)
  have hsorted : (instanceOf project projectId caller visit node).connections.Perm
      (callerConnections project projectId caller node ++
        drawnConnections project projectId visit (atNode node) false) :=
    List.perm_insertionSort _ _
  rw [← hgather] at hsorted
  exact hsorted

theorem targetOf_mem_order (hvisit : visit ∈ found) {toNode toPort : String} {key : InstanceKey}
    {viaCall : Bool} (h : targetOf project projectId visit toNode toPort = some (key, viaCall)) :
    key ∈ expanded.order := by
  apply (hexp.topological.covers key).mpr
  obtain ⟨node, hnode, -, ⟨hcall, -, rfl⟩ | ⟨hcall, -, callee, boundary, hcallee, hinput, rfl⟩⟩ :=
    targetOf_cases stage hvisit h
  · obtain ⟨caller, hplaced⟩ := (stage.calls hvisit).placed
    exact ⟨_, hexp.get hplaced hnode hcall⟩
  · have hgraph : callee ∈ project.graphs := List.mem_of_find?_eq_some hcallee
    obtain ⟨hboundary, hin, -⟩ := (declaredInput_iff stage.wellFormed hgraph).mp hinput
    have hplaced : Placed project target (some ⟨visit, node⟩)
      ⟨callee, visit.callPath ++ [node.id]⟩ :=
      .called (stage.calls hvisit) hnode hcall hcallee
    exact ⟨_, hexp.get hplaced hboundary
      (isCall_of_boundary stage.wellFormed hgraph hboundary (Or.inl hin))⟩

theorem arrives_once (hvisit : visit ∈ found) (edge : GraphEdge) :
    expanded.order.flatMap (fun key =>
        (edgeGain project projectId visit key edge).connections.map (fun c => (key, c))) =
      ((splice project visit.graph edge).map (fun wire =>
        (wire.beneath visit.callPath).arrival projectId)).toList := by
  have hgraph := stage.mem_graphs hvisit
  rw [splice_eq stage.wellFormed hgraph projectId visit.callPath edge]
  unfold edgeGain arriving
  cases edge.enabled with
  | false => simp
  | true =>
    cases htarget : targetOf project projectId visit edge.toNode edge.toPort with
    | none => simp
    | some resolved =>
      obtain ⟨key, viaCall⟩ := resolved
      have hkey := targetOf_mem_order stage hexp hvisit htarget
      rw [Alignment.flatMap_of_sublist (List.singleton_sublist.mpr hkey) hexp.topological.nodup (by
        intro other _ hnot
        have hne : other ≠ key := by simpa using hnot
        simp [hne])]
      simp only [List.flatMap_cons, List.flatMap_nil, List.append_nil, ↓reduceIte, Option.bind_some]
      cases connectionOf project projectId visit (if viaCall then atBoundary edge else edge) with
      | none | some connection => rfl

/-- The connections of the expansion are those the edges of all occurrences
stand for, each once. -/
theorem arrivals_perm : (arrivals expanded).Perm (found.flatMap (wiresAt project projectId)) := by
  have hgathered : (arrivals expanded).Perm (expanded.order.flatMap (fun key =>
      found.flatMap (fun visit => visit.graph.document.edges.flatMap (fun edge =>
        (edgeGain project projectId visit key edge).connections.map (fun c => (key, c)))))) := by
    apply List.Perm.flatMap_left
    intro key hkey
    obtain ⟨inst, hinst⟩ := (hexp.topological.covers key).mp hkey
    obtain ⟨caller, visit, node, hplaced, hnode, hcall, rfl⟩ := hexp.placed hinst
    have hperm := (connections_perm stage projectId hplaced hnode hcall).map (fun c =>
      (keyAt projectId visit.graph visit.callPath node, c))
    simpa only [hexp.get hplaced hnode hcall, List.map_flatMap] using hperm
  refine hgathered.trans ((flatMap_comm_perm _ _ _).trans ?_)
  apply List.Perm.flatMap_left
  intro visit hvisit
  refine (flatMap_comm_perm _ _ _).trans (List.Perm.of_eq ?_)
  unfold wiresAt
  rw [List.filterMap_eq_flatMap_toList]
  apply List.flatMap_congr
  intro edge _
  exact arrives_once stage hexp hvisit edge

end Arrivals

variable {path : List String}

section Copies

variable (own : GraphDefinition → List A) (shift : List String → A → A)
  (text : ℕ → GraphDefinition → List A)

/-- A text made of the Graph's own part and of shifted copies of its callees
lists the parts of all occurrences, each at its call path. -/
theorem flatMap_visits
    (hshift : ∀ path path' a, shift path (shift path' a) = shift (path ++ path') a)
    (htext : ∀ fuel graph, text (fuel + 1) graph = own graph ++ graph.document.nodes.flatMap (fun
      node => if isCall node then (project.getGraph node.operatorId).toList.flatMap (fun callee =>
      (text fuel callee).map (shift [node.id])) else [])) (fuel : ℕ)
    (h : visits project fuel graph path = .ok found) :
    found.flatMap (fun visit => (own visit.graph).map (shift visit.callPath)) =
      (text fuel graph).map (shift path) := by
  induction fuel generalizing graph path found with
  | zero => simp [visits] at h
  | succ fuel ih =>
    obtain ⟨below, rfl, hbelow⟩ := visits_succ_ok h
    rw [htext, List.flatMap_cons, List.map_append, List.map_flatMap]
    congr 1
    clear h
    generalize graph.document.nodes = nodes at hbelow
    induction hbelow with
    | nil => rfl
    | @cons node part nodes parts hpart _ ihnodes =>
      rw [List.flatten_cons, List.flatMap_append, List.flatMap_cons, ihnodes]
      congr 1
      rcases hpart with ⟨hcall, rfl⟩ | ⟨hcall, callee, hcallee, hpart⟩
      · simp [hcall]
      · rw [ih hpart]
        simp [hcall, hcallee, hshift, Function.comp_def]

theorem inline_copies (part : FlatGraph → List B) (shift : List String → B → B)
    (hpart : ∀ path flat, part (flat.beneath path) = (part flat).map (shift path)) (fuel : ℕ)
    (nodes : List GraphNode) :
    (nodes.filterMap (fun node => if isCall node then
        (project.getGraph node.operatorId).map (fun callee =>
          (inline project fuel callee).beneath [node.id]) else none)).flatMap part =
      nodes.flatMap (fun node => if isCall node then
        (project.getGraph node.operatorId).toList.flatMap (fun callee =>
          (part (inline project fuel callee)).map (shift [node.id])) else []) := by
  induction nodes with
  | nil => rfl
  | cons node rest ih =>
    rw [List.flatMap_cons, ← ih]
    cases hcall : isCall node with
    | false => simp [hcall]
    | true =>
      cases hget : project.getGraph node.operatorId with
      | none => simp [hcall, hget]
      | some callee => simp [hcall, hget, hpart]

def Place.ofNode (graph : GraphDefinition) (node : GraphNode) : Place := ⟨[], graph.id, node.id⟩

theorem inline_nodes (fuel : ℕ) (h : visits project fuel graph path = .ok found) :
    found.flatMap (fun visit => (visit.graph.document.nodes.filter (fun node => !isCall node)).map
        (fun node => ((Place.ofNode visit.graph node).beneath visit.callPath, node))) =
      (inline project fuel graph).nodes.map (fun entry => (entry.1.beneath path, entry.2)) := by
  have hcopies := flatMap_visits
    (fun graph => (graph.document.nodes.filter (fun node => !isCall node)).map
      (fun node => (Place.ofNode graph node, node)))
    (fun path (entry : Place × GraphNode) => (entry.1.beneath path, entry.2))
    (fun fuel graph => (inline project fuel graph).nodes) (by simp) (by
      intro fuel graph
      simp only [inline]
      congr 1
      exact inline_copies FlatGraph.nodes _ (fun _ _ => rfl) fuel _) fuel h
  simpa [Function.comp_def] using hcopies

theorem inline_wires (fuel : ℕ) (h : visits project fuel graph path = .ok found) :
    found.flatMap (fun visit => (visit.graph.document.edges.filterMap
        (splice project visit.graph)).map (Wire.beneath visit.callPath)) =
      (inline project fuel graph).wires.map (Wire.beneath path) := by
  refine flatMap_visits (fun graph => graph.document.edges.filterMap (splice project graph))
    Wire.beneath (fun fuel graph => (inline project fuel graph).wires) (by simp) ?_ fuel h
  intro fuel graph
  simp only [inline]
  congr 1
  exact inline_copies FlatGraph.wires _ (fun _ _ => rfl) fuel _

end Copies

section Flow

/-- Data flows from one instance to another over an edge of an occurrence. -/
def Feeds (project : ProjectDocument) (target : GraphDefinition) (projectId : String)
    (source key : InstanceKey) : Prop :=
  ∃ visit, Calls project target visit.callPath visit.graph ∧
    ∃ arrival ∈ wiresAt project projectId visit, arrival.1 = key ∧ arrival.2.source = source

/-- Connections followed from one instance to another, with the edges on the
way. -/
inductive Route (feeds : List (InstanceKey × Connection)) :
    InstanceKey → List GraphEdge → InstanceKey → Prop
  | here (key : InstanceKey) : Route feeds key [] key
  | along {feed : InstanceKey × Connection} {edges : List GraphEdge} {last : InstanceKey} :
      feed ∈ feeds → Route feeds feed.1 edges last →
      Route feeds feed.2.source (feed.2.edge :: edges) last

theorem Route.mono {feeds feeds' : List (InstanceKey × Connection)} (hsub : feeds ⊆ feeds')
    {first last : InstanceKey} {edges : List GraphEdge} (h : Route feeds first edges last) :
    Route feeds' first edges last := by
  induction h with
  | here key => exact .here key
  | along hfeed _ ih => exact .along (hsub hfeed) ih

variable (stage : Stage project target found)
include stage

theorem mem_wiresAt_of_edgeGain (hvisit : visit ∈ found) {edge : GraphEdge}
    (hedge : edge ∈ visit.graph.document.edges) {key : InstanceKey} {connection : Connection}
    (h : connection ∈ (edgeGain project projectId visit key edge).connections) :
    (key, connection) ∈ wiresAt project projectId visit := by
  apply List.mem_filterMap.mpr
  refine ⟨edge, hedge, ?_⟩
  rw [splice_eq stage.wellFormed (stage.mem_graphs hvisit) projectId visit.callPath edge]
  unfold edgeGain arriving at h
  cases henabled : edge.enabled with
  | false => simp [henabled] at h
  | true =>
    cases htarget : targetOf project projectId visit edge.toNode edge.toPort with
    | none => simp [henabled, htarget] at h
    | some resolved =>
      obtain ⟨key', viaCall⟩ := resolved
      by_cases hkey : key = key'
      · subst hkey
        have hconnection : connectionOf project projectId visit
            (if viaCall then atBoundary edge else edge) = some connection := by
          simpa [henabled, htarget] using h
        simp [hconnection]
      · simp [henabled, htarget, hkey] at h

theorem feeds_of_reads {source key : InstanceKey} (h : Reads project target projectId source key) :
    Feeds project target projectId source key := by
  obtain ⟨caller, visit, node, hplaced, hnode, hcall, rfl, hsource⟩ := h
  obtain ⟨connection, hconnection, rfl⟩ := List.mem_map.mp hsource
  have hmem := (connections_perm stage projectId hplaced hnode hcall).mem_iff.mp hconnection
  obtain ⟨visit', hvisit', hmem⟩ := List.mem_flatMap.mp hmem
  obtain ⟨edge, hedge, hgain⟩ := List.mem_flatMap.mp hmem
  exact ⟨visit', stage.calls hvisit', _, mem_wiresAt_of_edgeGain stage hvisit' hedge hgain, rfl,
    rfl⟩

/-- There are finitely many instances, so without a cycle following
connections upstream ends. -/
theorem acc_of_acyclic
    (hacyclic : ∀ key, ¬ Relation.TransGen (Feeds project target projectId) key key)
    {key : InstanceKey} (hkey : key ∈ (draft project projectId found).keys) :
    Acc (Reads project target projectId) key := by
  let K := { k : InstanceKey // k ∈ (draft project projectId found).keys }
  let before : K → K → Prop := fun a b => Relation.TransGen (Feeds project target projectId) a.1 b.1
  have hfinite : Finite K := @Finite.of_fintype _ (List.Subtype.fintype _)
  have htrans : IsTrans K before := ⟨fun _ _ _ hab hbc => hab.trans hbc⟩
  have hirrefl : Std.Irrefl before := ⟨fun a => hacyclic a.1⟩
  have hwf : WellFounded before := Finite.wellFounded_of_trans_of_irrefl before
  suffices hall : ∀ k : K, Acc (Reads project target projectId) k.1 from hall ⟨key, hkey⟩
  intro k
  induction k using hwf.induction with
  | _ k ih =>
    constructor
    intro source hreads
    obtain ⟨caller, visit, node, hplaced, hnode, hcall, hk, hsource⟩ := hreads
    have hmem : source ∈ (draft project projectId found).keys := by
      apply draft_closed stage k.1 k.2
      rw [hk, feeders_draft stage hplaced hnode hcall]
      exact hsource
    exact ih ⟨source, hmem⟩ (.single (feeds_of_reads stage
      ⟨caller, visit, node, hplaced, hnode, hcall, hk, hsource⟩))

/-- An expansion that succeeds has no cycle. -/
theorem acyclic_of_expands (hexp : Expands project target projectId expanded) (key : InstanceKey) :
    ¬ Relation.TransGen (Feeds project target projectId) key key := by
  have hsourced : TopologicalSort.Sourced expanded.sources expanded.order :=
    hexp.topological.sourcesBefore
  have hbefore : ∀ {a b}, Feeds project target projectId a b →
      expanded.order.idxOf a < expanded.order.idxOf b := by
    rintro a b ⟨visit, hcalls, arrival, harrival, rfl, rfl⟩
    have hmem : arrival ∈ arrivals expanded := (arrivals_perm stage hexp).mem_iff.mpr
      (List.mem_flatMap.mpr ⟨visit, stage.mem hcalls, harrival⟩)
    obtain ⟨b, hb, hin⟩ := List.mem_flatMap.mp hmem
    obtain ⟨inst, hinst⟩ := (hexp.topological.covers b).mp hb
    rw [hinst] at hin
    obtain ⟨connection, hconnection, rfl⟩ := List.mem_map.mp hin
    apply hsourced.idxOf_lt hexp.topological.nodup hb
    rw [ExpandedGraph.sources_eq hinst]
    exact List.mem_map_of_mem hconnection
  intro hcycle
  have hlt : ∀ {a b}, Relation.TransGen (Feeds project target projectId) a b →
      expanded.order.idxOf a < expanded.order.idxOf b := by
    intro a b h
    induction h with
    | single hab => exact hbefore hab
    | tail _ hbc ih => exact ih.trans (hbefore hbc)
  exact lt_irrefl _ (hlt hcycle)

end Flow

/-- A list of the occurrences of Graphs under the target, each once. -/
def Occurrences (project : ProjectDocument) (target : GraphDefinition) (visits : List Visit) :
    Prop :=
  visits.Nodup ∧ ∀ visit, visit ∈ visits ↔ Calls project target visit.callPath visit.graph

/-- The instances of one occurrence. -/
def keysAt (projectId : String) (visit : Visit) : List InstanceKey :=
  (visit.graph.document.nodes.filter (fun node => !isCall node)).map
    (keyAt projectId visit.graph visit.callPath)

/-- The flat text of a Graph of the project. -/
def textOf (project : ProjectDocument) (target : GraphDefinition) : FlatGraph :=
  inline project project.graphs.length target

/-- An expanded graph is the target with its calls inlined: one instance for
each call path and node, one connection for each edge that resolves, and the
data flow of the flat text. -/
structure Inlines (project : ProjectDocument) (target : GraphDefinition) (projectId : String)
    (expanded : ExpandedGraph) : Prop where
  nodup : expanded.order.Nodup
  keys : ∀ visits, Occurrences project target visits →
    expanded.order.Perm (visits.flatMap (keysAt projectId))
  instances : ∀ path graph node, Calls project target path graph →
    node ∈ graph.document.nodes → isCall node = false →
    ∃ inst, expanded.instances.get? (keyAt projectId graph path node) = some inst ∧
      inst.key = keyAt projectId graph path node ∧ inst.node = node
  connections : ∀ visits, Occurrences project target visits →
    (arrivals expanded).Perm (visits.flatMap (wiresAt project projectId))
  textNodes : expanded.order.Perm ((textOf project target).nodes.map (fun entry =>
    entry.1.key projectId))
  textWires : (arrivals expanded).Perm ((textOf project target).wires.map (Wire.arrival projectId))
  flow : ∀ first edges last, Route (arrivals expanded) first edges last ↔
    Route ((textOf project target).wires.map (Wire.arrival projectId)) first edges last

section Inlined

variable (stage : Stage project target found)
include stage

theorem perm_of_occurrences {visits : List Visit} (h : Occurrences project target visits) :
    found.Perm visits := by
  have hnodup : found.Nodup := List.Nodup.of_map _ stage.paths_nodup
  apply (List.perm_ext_iff_of_nodup hnodup h.1).mpr
  intro visit
  rw [h.2 visit]
  exact ⟨stage.calls, fun hcalls => stage.mem hcalls⟩

theorem order_perm (hexp : Expands project target projectId expanded) :
    expanded.order.Perm (found.flatMap (keysAt projectId)) := by
  have hkeys : (draft project projectId found).keys = found.flatMap (keysAt projectId) := by
    rw [keys_draft, pendingInstances_eq stage]
    simp only [Dict.keys, List.map_flatMap, placed, List.map_map]
    rfl
  rw [← hkeys]
  apply (List.perm_ext_iff_of_nodup hexp.topological.nodup (draft_keys_nodup stage)).mpr
  intro key
  rw [hexp.topological.covers key, keys_draft, mem_pending_keys stage]
  constructor
  · rintro ⟨inst, hinst⟩
    obtain ⟨caller, visit, node, hplaced, hnode, hcall, rfl⟩ := hexp.placed hinst
    exact ⟨visit, stage.mem hplaced.calls, node, hnode, hcall, rfl⟩
  · rintro ⟨visit, hvisit, node, hnode, hcall, rfl⟩
    obtain ⟨caller, hplaced⟩ := (stage.calls hvisit).placed
    exact ⟨_, hexp.get hplaced hnode hcall⟩

theorem textOf_nodes : (textOf project target).nodes.map (fun entry => entry.1.key projectId) =
    found.flatMap (keysAt projectId) := by
  have htext := congrArg (List.map (fun entry : Place × GraphNode => entry.1.key projectId))
    (inline_nodes project.graphs.length stage.visits)
  simp only [List.map_flatMap, List.map_map, Function.comp_def, Place.key,
    Place.beneath, Place.ofNode, List.append_nil] at htext
  exact htext.symm

theorem textOf_wires : (textOf project target).wires.map (Wire.arrival projectId) =
    found.flatMap (wiresAt project projectId) := by
  have htext := congrArg (List.map (Wire.arrival projectId))
    (inline_wires project.graphs.length stage.visits)
  simp only [List.map_flatMap, List.map_map, List.map_filterMap, Option.map_map,
    Function.comp_def, Wire.beneath_nil] at htext
  exact htext.symm

theorem inlines_of_expands (hexp : Expands project target projectId expanded) :
    Inlines project target projectId expanded := by
  have hwires : (arrivals expanded).Perm
      ((textOf project target).wires.map (Wire.arrival projectId)) := by
    rw [textOf_wires stage]
    exact arrivals_perm stage hexp
  refine ⟨hexp.topological.nodup, ?_, ?_, ?_, ?_, hwires, ?_⟩
  · intro visits hvisits
    exact (order_perm stage hexp).trans ((perm_of_occurrences stage hvisits).flatMap_right _)
  · intro path graph node hcalls hnode hcall
    obtain ⟨caller, hplaced⟩ := hcalls.placed
    exact ⟨_, hexp.get hplaced hnode hcall, rfl, rfl⟩
  · intro visits hvisits
    exact (arrivals_perm stage hexp).trans ((perm_of_occurrences stage hvisits).flatMap_right _)
  · rw [textOf_nodes stage]
    exact order_perm stage hexp
  · intro first edges last
    exact ⟨Route.mono hwires.subset, Route.mono hwires.symm.subset⟩

end Inlined

/-- Without a cycle among its connections a Graph of a valid document expands,
and the expansion is the Graph with every call inlined. -/
theorem expandGraph_inlines {casefold : String → String} {project : ProjectDocument}
    {graphId projectId : String} {target : GraphDefinition} (hvalid : project.Valid casefold)
    (htarget : project.getGraph graphId = some target)
    (hacyclic : ∀ key, ¬ Relation.TransGen (Feeds project target projectId) key key) :
    ∃ expanded, expandGraph project graphId projectId = .ok expanded ∧
      Inlines project target projectId expanded := by
  have hwf := hvalid.wellFormed
  obtain ⟨found, stage⟩ := exists_stage hwf htarget
  have hexists : ∃ expanded, expandGraph project graphId projectId = .ok expanded := by
    apply expandGraph_exists hwf htarget
    intro caller visit node hplaced hnode hcall
    apply acc_of_acyclic stage hacyclic
    rw [keys_draft]
    exact (mem_pending_keys stage projectId).mpr
      ⟨visit, stage.mem hplaced.calls, node, hnode, hcall, rfl⟩
  obtain ⟨expanded, hexpand⟩ := hexists
  obtain ⟨target', htarget', hexp⟩ := expandGraph_ok hwf hexpand
  cases htarget.symm.trans htarget'
  exact ⟨expanded, hexpand, inlines_of_expands stage hexp⟩

theorem callProject_inlines : ∃ target expanded, (callProject "a" "b").getGraph "main" =
    some target ∧
    expandGraph (callProject "a" "b") "main" "p" = .ok expanded ∧
      Inlines (callProject "a" "b") target "p" expanded := by
  obtain ⟨expanded, hexpand, -⟩ := callProject_expands
  have hwf := callProject_valid.wellFormed
  obtain ⟨target, htarget, hexp⟩ := expandGraph_ok hwf hexpand
  obtain ⟨found, stage⟩ := exists_stage hwf htarget
  obtain ⟨expanded', hexpand', hinlines⟩ := expandGraph_inlines callProject_valid htarget
    (acyclic_of_expands stage hexp)
  exact ⟨target, expanded', htarget, hexpand', hinlines⟩

end Grafy.Inlining
