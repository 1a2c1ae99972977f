import Grafy.ExpansionInstances
import Grafy.FingerprintCongruence

/-!
Renamed documents. A document renames another when the two hold the same
Graphs up to the ids of nodes, edges and origins and up to everything that is
only drawn. Lookups and resolved endpoints of the two correspond, so do the
occurrences reached by corresponding chains of calls, and corresponding
instances agree once their call sites do.
-/
namespace Grafy.Renaming

open DocumentRules Expansion Fingerprints GraphDocuments Instances OrderedDict Project Results

variable {node node' : GraphNode} {graph graph' : GraphDefinition}

section Documents

/-- Nodes that differ in their ids and in where they are drawn. -/
structure NodeRenames (rename : String → String) (node node' : GraphNode) : Prop where
  id : node'.id = rename node.id
  kind : node'.kind = node.kind
  operatorId : node'.operatorId = node.operatorId
  operatorVersion : node'.operatorVersion = node.operatorVersion
  config : node'.config = node.config
  inputPlugs : node'.inputPlugs = node.inputPlugs
  artifactTypeBindings : node'.artifactTypeBindings = node.artifactTypeBindings

/-- Edges that differ in their ids and routes. -/
structure EdgeRenames (rename : String → String) (edge edge' : GraphEdge) : Prop where
  enabled : edge'.enabled = edge.enabled
  fromNode : edge'.fromNode = rename edge.fromNode
  fromPort : edge'.fromPort = edge.fromPort
  toNode : edge'.toNode = rename edge.toNode
  toPort : edge'.toPort = edge.toPort
  toPlug : edge'.toPlug = edge.toPlug
  collectionMode : edge'.collectionMode = edge.collectionMode
  projection : edge'.projection = edge.projection
  conversionPath : edge'.conversionPath = edge.conversionPath

/-- Origins that differ in their ids. -/
structure OriginRenames (rename : String → String) (origin origin' : GraphOrigin) : Prop where
  toNode : origin'.toNode = rename origin.toNode
  toPort : origin'.toPort = origin.toPort
  toPlug : origin'.toPlug = origin.toPlug
  value : origin'.value = origin.value
  collectionMode : origin'.collectionMode = origin.collectionMode
  conversionPath : origin'.conversionPath = origin.conversionPath

/-- Graphs that differ by an injective renaming of node ids, and in names,
presentation and agents. -/
structure GraphRenames (rename : String → String) (graph graph' : GraphDefinition) : Prop where
  id : graph'.id = graph.id
  injective : Set.InjOn rename { id | id ∈ nodeIds graph.document }
  nodes : List.Forall₂ (NodeRenames rename) graph.document.nodes graph'.document.nodes
  edges : List.Forall₂ (EdgeRenames rename) graph.document.edges graph'.document.edges
  origins : List.Forall₂ (OriginRenames rename) graph.document.origins graph'.document.origins
  refreshGenerations : ∀ node ∈ graph.document.nodes,
    graph'.refreshGenerations.get? (rename node.id) = graph.refreshGenerations.get? node.id

/-- The renaming of node ids is chosen for each Graph id. -/
def ProjectRenames (rename : String → String → String) (project project' : ProjectDocument) :
    Prop :=
  List.Forall₂ (fun graph graph' => GraphRenames (rename graph.id) graph graph')
    project.graphs project'.graphs

variable {rename : String → String}

section

variable (h : NodeRenames rename node node')
include h

theorem NodeRenames.isCall : isCall node' = isCall node := by
  simp [Project.isCall, h.kind]

theorem NodeRenames.isInput : isInput node' = isInput node := by
  simp [Expansion.isInput, h.operatorId]

theorem NodeRenames.isOutput : isOutput node' = isOutput node := by
  simp [Expansion.isOutput, h.operatorId]

theorem NodeRenames.isBoundary : isBoundary node' = isBoundary node := by
  simp [Project.isBoundary, h.operatorId]

theorem NodeRenames.publicName : publicName node' = publicName node := by
  simp [Project.publicName, h.config]

theorem NodeRenames.interfaceSlot : interfaceSlot node' = interfaceSlot node := by
  simp [Project.interfaceSlot, directionOf, h.operatorId, h.publicName]

end

section

variable (h : GraphRenames rename graph graph')
include h

theorem GraphRenames.nodeIds : nodeIds graph'.document = (nodeIds graph.document).map rename := by
  unfold DocumentRules.nodeIds
  rw [List.map_map]
  exact (Alignment.map_eq h.nodes (fun _ _ hnode => hnode.id.symm)).symm

theorem GraphRenames.eq_iff {a b : String} (ha : a ∈ DocumentRules.nodeIds graph.document)
    (hb : b ∈ DocumentRules.nodeIds graph.document) : rename a = rename b ↔ a = b :=
  ⟨fun heq => h.injective ha hb heq, fun heq => heq ▸ rfl⟩

/-- A renamed Graph is anchored when the Graph is. -/
theorem GraphRenames.anchored (hanchored : Anchored graph.document) : Anchored graph'.document := by
  refine ⟨?_, ?_, ?_⟩
  · rw [h.nodeIds]
    exact List.Nodup.map_on (fun a ha b hb heq => h.injective ha hb heq) hanchored.nodeIds
  · intro edge' hedge'
    obtain ⟨edge, hedge, hrenames⟩ := Alignment.exists_left h.edges hedge'
    obtain ⟨hfrom, hto⟩ := hanchored.edges edge hedge
    rw [h.nodeIds, hrenames.fromNode, hrenames.toNode]
    exact ⟨List.mem_map_of_mem hfrom, List.mem_map_of_mem hto⟩
  · intro origin' horigin'
    obtain ⟨origin, horigin, hrenames⟩ := Alignment.exists_left h.origins horigin'
    rw [h.nodeIds, hrenames.toNode]
    exact List.mem_map_of_mem (hanchored.origins origin horigin)

theorem GraphRenames.interfaceSlots :
    (graph'.document.nodes.filter isBoundary).map interfaceSlot =
      (graph.document.nodes.filter isBoundary).map interfaceSlot := by
  have hfilter : List.Forall₂ (NodeRenames rename) (graph.document.nodes.filter isBoundary)
      (graph'.document.nodes.filter isBoundary) := by
    refine List.rel_filter ?_ h.nodes
    intro node node' hnode
    simp [hnode.isBoundary]
  exact (Alignment.map_eq hfilter (fun _ _ hnode => hnode.interfaceSlot.symm)).symm

end

end Documents

section Projects

variable {rename : String → String → String} {project project' : ProjectDocument}

section

variable (h : ProjectRenames rename project project')
include h

theorem ProjectRenames.ids :
    project'.graphs.map GraphDefinition.id = project.graphs.map GraphDefinition.id :=
  (Alignment.map_eq h (fun _ _ hgraph => hgraph.id.symm)).symm

/-- What the expansion relies on carries over to a renamed document. -/
theorem ProjectRenames.wellFormed (hwf : WellFormed project) : WellFormed project' := by
  refine ⟨h.ids ▸ hwf.ids, ?_, ?_, ?_, ?_, ?_⟩
  · intro graph' hgraph'
    obtain ⟨graph, hgraph, hrenames⟩ := Alignment.exists_left h hgraph'
    exact hrenames.anchored (hwf.anchored graph hgraph)
  · intro graph' hgraph' node' hnode' hcall'
    obtain ⟨graph, hgraph, hrenames⟩ := Alignment.exists_left h hgraph'
    obtain ⟨node, hnode, hnoderenames⟩ := Alignment.exists_left hrenames.nodes hnode'
    rw [h.ids, hnoderenames.operatorId]
    exact hwf.calleeKnown graph hgraph node hnode (hnoderenames.isCall ▸ hcall')
  · intro graph' hgraph' node' hnode' hboundary'
    obtain ⟨graph, hgraph, hrenames⟩ := Alignment.exists_left h hgraph'
    obtain ⟨node, hnode, hnoderenames⟩ := Alignment.exists_left hrenames.nodes hnode'
    rw [hnoderenames.kind]
    exact hwf.boundaryKind graph hgraph node hnode (hnoderenames.isBoundary ▸ hboundary')
  · intro graph' hgraph'
    obtain ⟨graph, hgraph, hrenames⟩ := Alignment.exists_left h hgraph'
    rw [hrenames.interfaceSlots]
    exact hwf.publicNames graph hgraph
  · obtain ⟨rank, hbound, hlower⟩ := hwf.ranked
    refine ⟨rank, ?_, ?_⟩
    · intro graph' hgraph'
      obtain ⟨graph, hgraph, hrenames⟩ := Alignment.exists_left h hgraph'
      rw [hrenames.id, ← h.length_eq]
      exact hbound graph hgraph
    · intro graph' hgraph' node' hnode' hcall'
      obtain ⟨graph, hgraph, hrenames⟩ := Alignment.exists_left h hgraph'
      obtain ⟨node, hnode, hnoderenames⟩ := Alignment.exists_left hrenames.nodes hnode'
      rw [hrenames.id, hnoderenames.operatorId]
      exact hlower graph hgraph node hnode (hnoderenames.isCall ▸ hcall')

theorem ProjectRenames.getGraph {graphId : String} (hget : project.getGraph graphId = some graph) :
    ∃ graph', project'.getGraph graphId = some graph' ∧
      GraphRenames (rename graph.id) graph graph' := by
  obtain ⟨graphs⟩ := project
  obtain ⟨graphs'⟩ := project'
  unfold ProjectDocument.getGraph at *
  unfold ProjectRenames at h
  simp only at h hget ⊢
  induction h with
  | nil => simp at hget
  | @cons first first' rest rest' hfirst _ ih =>
    by_cases hid : first.id = graphId
    · obtain rfl : first = graph := by simpa [hid] using hget
      refine ⟨first', ?_, hfirst⟩
      have hid' : first'.id = graphId := hfirst.id.trans hid
      simp [hid']
    · have hid' : first'.id ≠ graphId := fun heq => hid (hfirst.id.symm.trans heq)
      rw [List.find?_cons_of_neg (by simpa using hid)] at hget
      rw [List.find?_cons_of_neg (by simpa using hid')]
      exact ih hget

end

end Projects

section Lookups

/-- A lookup by what corresponding nodes share finds corresponding nodes. -/
theorem rel_of_lookup {rename : String → String} (hgraphs : GraphRenames rename graph graph')
    {lookup lookup' : Option GraphNode} {chosen : GraphNode → Prop}
    (h : ∀ node, lookup = some node ↔ node ∈ graph.document.nodes ∧ chosen node)
    (h' : ∀ node', lookup' = some node' ↔ node' ∈ graph'.document.nodes ∧ chosen node')
    (hchosen : ∀ node node', NodeRenames rename node node' → (chosen node ↔ chosen node')) :
    Option.Rel (fun node node' => node ∈ graph.document.nodes ∧ node' ∈ graph'.document.nodes ∧
      chosen node ∧ NodeRenames rename node node') lookup lookup' := by
  cases hlookup : lookup with
  | none =>
    cases hlookup' : lookup' with
    | none => exact .none
    | some node' =>
      obtain ⟨hnode', hc'⟩ := (h' node').mp hlookup'
      obtain ⟨node, hnode, hnoderenames⟩ := Alignment.exists_left hgraphs.nodes hnode'
      have hsome := (h node).mpr ⟨hnode, (hchosen node node' hnoderenames).mpr hc'⟩
      simp [hlookup] at hsome
  | some node =>
    obtain ⟨hnode, hc⟩ := (h node).mp hlookup
    obtain ⟨node', hnode', hnoderenames⟩ := Alignment.exists_right hgraphs.nodes hnode
    have hsome := (h' node').mpr ⟨hnode', (hchosen node node' hnoderenames).mp hc⟩
    rw [hsome]
    exact .some ⟨hnode, hnode', hc, hnoderenames⟩

variable {rename : String → String → String} {project project' : ProjectDocument}
  (hrenames : ProjectRenames rename project project') (hwf : WellFormed project)
  (hgraph : graph ∈ project.graphs) (hgraph' : graph' ∈ project'.graphs)
  (hgraphs : GraphRenames (rename graph.id) graph graph')
include hrenames hwf hgraph' hgraphs

theorem nodeNamed_renamed (hnode : node ∈ graph.document.nodes) :
    ∃ node', nodeNamed graph' (rename graph.id node.id) = some node' ∧
      node' ∈ graph'.document.nodes ∧ NodeRenames (rename graph.id) node node' := by
  obtain ⟨node', hnode', hnoderenames⟩ := Alignment.exists_right hgraphs.nodes hnode
  refine ⟨node', ?_, hnode', hnoderenames⟩
  exact (nodeNamed_iff (hrenames.wellFormed hwf) hgraph').mpr ⟨hnode', hnoderenames.id⟩

include hgraph in
theorem declaredOutput_renamed (name : String) :
    Option.Rel (fun node node' => node ∈ graph.document.nodes ∧ node' ∈ graph'.document.nodes ∧
      (isOutput node ∧ publicName node = name) ∧ NodeRenames (rename graph.id) node node')
      (declaredOutput graph name) (declaredOutput graph' name) := by
  refine rel_of_lookup hgraphs (fun node => declaredOutput_iff hwf hgraph)
    (fun node' => declaredOutput_iff (hrenames.wellFormed hwf) hgraph') ?_
  intro node node' hnode
  rw [hnode.isOutput, hnode.publicName]

end Lookups

variable {visit visit' : Visit}

section Occurrences

variable (rename : String → String → String) (project project' : ProjectDocument)
  (start start' : Visit)

/-- Occurrences beneath two starting ones, reached by corresponding calls. -/
inductive Matched : Visit → Visit → Prop
  | start : Matched start start'
  | call {visit visit' : Visit} {node node' : GraphNode} {callee callee' : GraphDefinition} :
      Matched visit visit' → node ∈ visit.graph.document.nodes → isCall node →
      node' ∈ visit'.graph.document.nodes → NodeRenames (rename visit.graph.id) node node' →
      project.getGraph node.operatorId = some callee →
      project'.getGraph node'.operatorId = some callee' →
      Matched ⟨callee, visit.callPath ++ [node.id]⟩ ⟨callee', visit'.callPath ++ [node'.id]⟩

/-- Corresponding instances beneath the two starts. -/
inductive Counterpart (projectId projectId' : String) : InstanceKey → InstanceKey → Prop
  | intro {visit visit' : Visit} {node node' : GraphNode} :
      Matched rename project project' start start' visit visit' →
      node ∈ visit.graph.document.nodes → isCall node = false →
      node' ∈ visit'.graph.document.nodes → NodeRenames (rename visit.graph.id) node node' →
      Counterpart projectId projectId' (keyAt projectId visit.graph visit.callPath node)
        (keyAt projectId' visit'.graph visit'.callPath node')

variable {rename project project' start start'}

theorem Matched.graphs (hrenames : ProjectRenames rename project project')
    (hstart : GraphRenames (rename start.graph.id) start.graph start'.graph)
    (h : Matched rename project project' start start' visit visit') :
    GraphRenames (rename visit.graph.id) visit.graph visit'.graph := by
  cases h with
  | start => exact hstart
  | call _ _ _ _ hnode hcallee hcallee' =>
    obtain ⟨graph', hget', hgraphs⟩ := hrenames.getGraph hcallee
    rw [hnode.operatorId, hget'] at hcallee'
    cases hcallee'
    exact hgraphs

theorem Matched.mem_graphs (h : Matched rename project project' start start' visit visit')
    (hstart : start.graph ∈ project.graphs) (hstart' : start'.graph ∈ project'.graphs) :
    visit.graph ∈ project.graphs ∧ visit'.graph ∈ project'.graphs := by
  cases h with
  | start => exact ⟨hstart, hstart'⟩
  | call _ _ _ _ _ hcallee hcallee' =>
    exact ⟨List.mem_of_find?_eq_some hcallee, List.mem_of_find?_eq_some hcallee'⟩

end Occurrences

/-- Two starting occurrences in a well-formed document and a renamed one. -/
structure Pairing (rename : String → String → String) (project project' : ProjectDocument)
    (start start' : Visit) : Prop where
  renames : ProjectRenames rename project project'
  wellFormed : WellFormed project
  graphs : GraphRenames (rename start.graph.id) start.graph start'.graph
  known : start.graph ∈ project.graphs
  known' : start'.graph ∈ project'.graphs

section Feeds

variable {rename : String → String → String} {project project' : ProjectDocument}
  {start start' : Visit} (pairing : Pairing rename project project' start start')
  (hmatched : Matched rename project project' start start' visit visit')
include pairing hmatched

/-- Corresponding edges become corresponding connections or none. -/
theorem connectionOf_renamed (projectId projectId' : String) {edge edge' : GraphEdge}
    (hfrom : edge.fromNode ∈ nodeIds visit.graph.document)
    (hedge : EdgeRenames (rename visit.graph.id) edge edge') :
    Option.Rel (fun c c' => SameTransport c.edge c'.edge ∧
        Counterpart rename project project' start start' projectId projectId' c.source c'.source)
      (connectionOf project projectId visit edge)
        (connectionOf project' projectId' visit' edge') := by
  have hgraphs := hmatched.graphs pairing.renames pairing.graphs
  obtain ⟨hgraph, hgraph'⟩ := hmatched.mem_graphs pairing.known pairing.known'
  obtain ⟨source, hsource, hid⟩ := List.mem_map.mp hfrom
  have hnamed := (nodeNamed_iff pairing.wellFormed hgraph).mpr ⟨hsource, hid⟩
  obtain ⟨source', hnamed', hsource', hsourcerenames⟩ :=
    nodeNamed_renamed pairing.renames pairing.wellFormed hgraph' hgraphs hsource
  rw [hid, ← hedge.fromNode] at hnamed'
  have htransport : ∀ port, SameTransport { edge with fromPort := port }
      { edge' with fromPort := port } := fun port =>
    ⟨rfl, hedge.toPort.symm, hedge.toPlug.symm, hedge.collectionMode.symm, hedge.projection.symm,
      hedge.conversionPath.symm⟩
  simp only [connectionOf, sourceOf, hnamed, hnamed', Option.bind_some]
  cases hcall : isCall source with
  | false =>
    have hcall' : isCall source' = false := hsourcerenames.isCall.trans hcall
    simp only [sourceAt, hcall, hcall', Bool.false_eq_true, ↓reduceIte, Option.map_some]
    refine .some ⟨?_, .intro hmatched hsource hcall hsource' hsourcerenames⟩
    rw [hedge.fromPort]
    exact htransport edge.fromPort
  | true =>
    have hcall' : isCall source' = true := hsourcerenames.isCall.trans hcall
    obtain ⟨callee, hmem, hcallee⟩ := exists_callee pairing.wellFormed hgraph hsource hcall
    obtain ⟨callee', hcallee', hcallees⟩ := pairing.renames.getGraph hcallee
    have hcallee'' : project'.getGraph source'.operatorId = some callee' := by
      rw [hsourcerenames.operatorId]
      exact hcallee'
    have hdeeper := hmatched.call hsource hcall hsource' hsourcerenames hcallee hcallee''
    have hrel := declaredOutput_renamed pairing.renames pairing.wellFormed hmem
      (List.mem_of_find?_eq_some hcallee') hcallees edge.fromPort
    simp only [sourceAt, hcall, hcall', ↓reduceIte, hcallee, hcallee'', Option.bind_some,
      hedge.fromPort]
    generalize declaredOutput callee edge.fromPort = output at hrel ⊢
    generalize declaredOutput callee' edge.fromPort = output' at hrel ⊢
    cases hrel with
    | none => exact .none
    | some hboundary =>
      obtain ⟨hnode, hnode', ⟨hout, -⟩, hboundaryrenames⟩ := hboundary
      refine .some ⟨htransport graphBoundaryPort, ?_⟩
      exact .intro hdeeper hnode (isCall_of_boundary pairing.wellFormed hmem hnode (Or.inr hout))
        hnode' hboundaryrenames

theorem edgesRenamed_mem : List.Forall₂ (fun edge edge' =>
    edge.fromNode ∈ nodeIds visit.graph.document ∧ edge.toNode ∈ nodeIds visit.graph.document ∧
      EdgeRenames (rename visit.graph.id) edge edge')
    visit.graph.document.edges visit'.graph.document.edges := by
  have hgraphs := hmatched.graphs pairing.renames pairing.graphs
  obtain ⟨hgraph, -⟩ := hmatched.mem_graphs pairing.known pairing.known'
  refine (Alignment.with_mem hgraphs.edges).imp ?_
  rintro edge edge' ⟨hedge, -, hrenames⟩
  obtain ⟨hfrom, hto⟩ := (pairing.wellFormed.anchored _ hgraph).edges edge hedge
  exact ⟨hfrom, hto, hrenames⟩

theorem originsRenamed_mem : List.Forall₂ (fun origin origin' =>
    origin.toNode ∈ nodeIds visit.graph.document ∧
      OriginRenames (rename visit.graph.id) origin origin')
    visit.graph.document.origins visit'.graph.document.origins := by
  have hgraphs := hmatched.graphs pairing.renames pairing.graphs
  obtain ⟨hgraph, -⟩ := hmatched.mem_graphs pairing.known pairing.known'
  refine (Alignment.with_mem hgraphs.origins).imp ?_
  rintro origin origin' ⟨horigin, -, hrenames⟩
  exact ⟨(pairing.wellFormed.anchored _ hgraph).origins origin horigin, hrenames⟩

variable {feeds feeds' : String → String → Bool}
  (hfeeds : ∀ toNode ∈ nodeIds visit.graph.document, ∀ toPort,
    feeds' (rename visit.graph.id toNode) toPort = feeds toNode toPort)
include hfeeds

theorem drawnConnections_renamed (projectId projectId' : String) (viaCall : Bool) :
    List.Forall₂ (fun c c' => SameTransport c.edge c'.edge ∧
        Counterpart rename project project' start start' projectId projectId' c.source c'.source)
      (drawnConnections project projectId visit feeds viaCall)
      (drawnConnections project' projectId' visit' feeds' viaCall) := by
  refine List.rel_filterMap ?_ (edgesRenamed_mem pairing hmatched)
  rintro edge edge' ⟨hfrom, hto, hrenames⟩
  dsimp only
  rw [hrenames.enabled, hrenames.toNode, hrenames.toPort, hfeeds _ hto]
  by_cases hfed : edge.enabled && feeds edge.toNode edge.toPort
  · rw [if_pos hfed, if_pos hfed]
    cases viaCall with
    | false => exact connectionOf_renamed pairing hmatched projectId projectId' hfrom hrenames
    | true =>
      refine connectionOf_renamed pairing hmatched projectId projectId' hfrom ?_
      exact { hrenames with toPort := rfl, toPlug := rfl }
  · rw [if_neg hfed, if_neg hfed]
    exact .none

theorem drawnOrigins_renamed :
    List.Forall₂ (OriginRenames (rename visit.graph.id)) (drawnOrigins visit feeds)
      (drawnOrigins visit' feeds') := by
  have horigins := originsRenamed_mem pairing hmatched
  have hfilter : List.Forall₂ (fun origin origin' =>
      origin.toNode ∈ nodeIds visit.graph.document ∧
        OriginRenames (rename visit.graph.id) origin origin')
      (drawnOrigins visit feeds) (drawnOrigins visit' feeds') := by
    refine List.rel_filter ?_ horigins
    rintro origin origin' ⟨hto, hrenames⟩
    simp [hrenames.toNode, hrenames.toPort, hfeeds _ hto]
  exact hfilter.imp (fun _ _ h => h.2)

theorem drawn_renamed : drawn visit' feeds' = drawn visit feeds := by
  unfold drawn
  congr 1
  · refine (Alignment.any_eq (edgesRenamed_mem pairing hmatched) ?_).symm
    rintro edge edge' ⟨-, hto, hrenames⟩
    rw [hrenames.enabled, hrenames.toNode, hrenames.toPort, hfeeds _ hto]
  · refine (Alignment.any_eq (originsRenamed_mem pairing hmatched) ?_).symm
    rintro origin origin' ⟨hto, hrenames⟩
    rw [hrenames.toNode, hrenames.toPort, hfeeds _ hto]

end Feeds

variable {R : InstanceKey → InstanceKey → Prop} {projectId projectId' : String}
  {caller caller' : Option Site}

section Agreement

/-- Origins that supply the same value the same way. -/
structure SameSupply (origin origin' : GraphOrigin) : Prop where
  value : SameValue origin.value origin'.value
  collectionMode : origin.collectionMode = origin'.collectionMode
  conversionPath : origin.conversionPath = origin'.conversionPath

theorem SameValue.refl (value : ArtifactOutputValue) : SameValue value value := by
  cases value with
  | ref value => rfl
  | sequence value => exact ⟨rfl, rfl, rfl, rfl, rfl, rfl, rfl⟩

/-- Two call sites that feed a boundary node alike. The node's own origins are
kept or dropped alike where there are any. -/
structure SuppliedAlike (R : InstanceKey → InstanceKey → Prop) (project project' : ProjectDocument)
    (projectId projectId' : String) (caller caller' : Option Site) (visit : Visit)
    (node node' : GraphNode) : Prop where
  connections : List.Forall₂ (fun c c' => SameTransport c.edge c'.edge ∧ R c.source c'.source)
    (callerConnections project projectId caller node)
    (callerConnections project' projectId' caller' node')
  origins : List.Forall₂ SameSupply (callerOrigins caller node) (callerOrigins caller' node')
  draws : drawnOrigins visit (atNode node) ≠ [] →
    callerDraws caller node = callerDraws caller' node'

variable {rename : String → String → String} {project project' : ProjectDocument}
  {start start' : Visit} (pairing : Pairing rename project project' start start')
  (hmatched : Matched rename project project' start start' visit visit')
include pairing hmatched

theorem atNode_renamed (hnode : node ∈ visit.graph.document.nodes)
    (hrenames : NodeRenames (rename visit.graph.id) node node') :
    ∀ toNode ∈ nodeIds visit.graph.document, ∀ toPort,
      atNode node' (rename visit.graph.id toNode) toPort = atNode node toNode toPort := by
  intro toNode hto toPort
  have hgraphs := hmatched.graphs pairing.renames pairing.graphs
  have hid : node.id ∈ nodeIds visit.graph.document := List.mem_map.mpr ⟨node, hnode, rfl⟩
  simp only [atNode, hrenames.id, hgraphs.eq_iff hto hid]

theorem agree_instanceOf
    (hR : ∀ key key', Counterpart rename project project' start start' projectId projectId' key key'
      → R key key') (hnode : node ∈ visit.graph.document.nodes)
    (hrenames : NodeRenames (rename visit.graph.id) node node')
    (hsupply : SuppliedAlike R project project' projectId projectId' caller caller' visit node
      node') {facts facts' : FingerprintFacts}
    (himplementation : facts.implementationDigest node = facts'.implementationDigest node')
    (hpolicy : facts.cachePolicy node = facts'.cachePolicy node')
    (hsecrets : facts.secretRevisions (keyAt projectId visit.graph visit.callPath node) =
      facts'.secretRevisions (keyAt projectId' visit'.graph visit'.callPath node')) :
    Agree R facts (instanceOf project projectId caller visit node)
      facts' (instanceOf project' projectId' caller' visit' node') := by
  have hgraphs := hmatched.graphs pairing.renames pairing.graphs
  have hfeeds := atNode_renamed pairing hmatched hnode hrenames
  have hown := drawnOrigins_renamed pairing hmatched hfeeds
  refine ⟨hrenames.kind.symm, hrenames.operatorId.symm, hrenames.operatorVersion.symm,
    hrenames.config.symm, himplementation, hrenames.inputPlugs.symm,
    hrenames.artifactTypeBindings.symm, hsecrets, hpolicy, ?_, ?_, ?_⟩
  · have hgeneration := hgraphs.refreshGenerations node hnode
    rw [← hrenames.id] at hgeneration
    simp [instanceOf, draftInstance, hgeneration]
  · refine Alignment.insertionSort ?_ ?_
    · rintro a b a' b' ⟨hab, -⟩ ⟨hab', -⟩
      simp [incomingSlot, hab.toPort, hab.toPlug, hab'.toPort, hab'.toPlug]
    · refine List.rel_append hsupply.connections ?_
      refine (drawnConnections_renamed pairing hmatched hfeeds projectId projectId' false).imp ?_
      rintro c c' ⟨htransport, hsource⟩
      exact ⟨htransport, hR _ _ hsource⟩
  · have hcaller : List.Forall₂ SameOrigin
        ((callerOrigins caller node).map (originAtBoundary
          (keyAt projectId visit.graph visit.callPath node)))
        ((callerOrigins caller' node').map
          (originAtBoundary (keyAt projectId' visit'.graph visit'.callPath node'))) := by
      rw [List.forall₂_map_left_iff, List.forall₂_map_right_iff]
      refine hsupply.origins.imp ?_
      intro origin origin' hsame
      exact ⟨rfl, rfl, hsame.value, hsame.collectionMode, hsame.conversionPath⟩
    have hkept : List.Forall₂ SameOrigin (drawnOrigins visit (atNode node))
        (drawnOrigins visit' (atNode node')) := by
      refine hown.imp ?_
      intro origin origin' h
      exact ⟨h.toPort.symm, h.toPlug.symm, h.value ▸ SameValue.refl _, h.collectionMode.symm,
        h.conversionPath.symm⟩
    refine List.rel_append ?_ hcaller
    by_cases hnone : drawnOrigins visit (atNode node) = []
    · have hnone' : drawnOrigins visit' (atNode node') = [] := by
        rw [hnone] at hkept
        exact List.forall₂_nil_left_iff.mp hkept
      simp [hnone, hnone']
    · simp only [hsupply.draws hnone]
      split_ifs
      · exact .nil
      · exact hkept

/-- Corresponding call nodes beneath the starts feed their callees alike. -/
theorem suppliedAlike_of_sites (projectId projectId' : String) {site site' : Site}
    (hvisit : site.visit = visit) (hvisit' : site'.visit = visit')
    (hsite : site.node ∈ visit.graph.document.nodes)
    (hsites : NodeRenames (rename visit.graph.id) site.node site'.node) (deeper : Visit)
    {inner : String → String} (hrenames : NodeRenames inner node node') :
    SuppliedAlike
      (Counterpart rename project project' start start' projectId projectId') project project'
      projectId projectId' (some site) (some site') deeper node node' := by
  have hgraphs := hmatched.graphs pairing.renames pairing.graphs
  have hfeeds : ∀ toNode ∈ nodeIds visit.graph.document, ∀ toPort,
      atSite site' node' (rename visit.graph.id toNode) toPort =
        atSite site node toNode toPort := by
    intro toNode hto toPort
    have hid : site.node.id ∈ nodeIds visit.graph.document := List.mem_map.mpr ⟨_, hsite, rfl⟩
    simp only [atSite, hsites.id, hrenames.isInput, hrenames.publicName, hgraphs.eq_iff hto hid]
  subst hvisit hvisit'
  refine ⟨drawnConnections_renamed pairing hmatched hfeeds projectId projectId' true, ?_, ?_⟩
  · refine (drawnOrigins_renamed pairing hmatched hfeeds).imp ?_
    intro origin origin' h
    exact ⟨h.value ▸ SameValue.refl _, h.collectionMode.symm, h.conversionPath.symm⟩
  · intro _
    exact (drawn_renamed pairing hmatched hfeeds).symm

end Agreement

section Fingerprints

variable {rename : String → String → String} {project project' : ProjectDocument}
  {start start' : Visit} {target target' : GraphDefinition}

section

variable (hplaced : Placed project target caller start)
  (hplaced' : Placed project' target' caller' start')
  (h : Matched rename project project' start start' visit visit')
include hplaced hplaced' h

theorem Matched.calls :
    Calls project target visit.callPath visit.graph ∧
      Calls project' target' visit'.callPath visit'.graph := by
  induction h with
  | start => exact ⟨hplaced.calls, hplaced'.calls⟩
  | call _ hnode hcall hnode' hrenames hcallee hcallee' ih =>
    exact ⟨ih.1.call hnode hcall hcallee, ih.2.call hnode' (hrenames.isCall.trans hcall) hcallee'⟩

/-- Beneath the starts the occurrences are called from corresponding sites. -/
theorem Matched.placed :
    (visit = start ∧ visit' = start') ∨
      ∃ site site', Placed project target (some site) visit ∧
        Placed project' target' (some site') visit' ∧
        Matched rename project project' start start' site.visit site'.visit ∧
        site.node ∈ site.visit.graph.document.nodes ∧
        NodeRenames (rename site.visit.graph.id) site.node site'.node := by
  cases h with
  | start => exact Or.inl ⟨rfl, rfl⟩
  | @call above above' node node' callee callee' habove hnode hcall hnode' hrenames hcallee
    hcallee' =>
    obtain ⟨hcalls, hcalls'⟩ := habove.calls hplaced hplaced'
    have hsite : Placed project target (some ⟨above, node⟩) ⟨callee, above.callPath ++ [node.id]⟩ :=
      .called hcalls hnode hcall hcallee
    have hsite' : Placed project' target' (some ⟨above', node'⟩)
        ⟨callee', above'.callPath ++ [node'.id]⟩ :=
      .called hcalls' hnode' (hrenames.isCall.trans hcall) hcallee'
    exact Or.inr ⟨_, _, hsite, hsite', habove, hnode, hrenames⟩

end

variable {projectId projectId' : String} {expanded expanded' : ExpandedGraph}
  {facts facts' : FingerprintFacts} {key' key : InstanceKey}

/-- Corresponding keys are keys of instances on both sides. -/
theorem Counterpart.placed (hplaced : Placed project target caller start)
    (hplaced' : Placed project' target' caller' start')
    (h : Counterpart rename project project' start start' projectId projectId' key key') :
    (∃ c visit node, Placed project target c visit ∧ node ∈ visit.graph.document.nodes ∧
      isCall node = false ∧ key = keyAt projectId visit.graph visit.callPath node) ∧
    ∃ c' visit' node', Placed project' target' c' visit' ∧ node' ∈ visit'.graph.document.nodes ∧
      isCall node' = false ∧ key' = keyAt projectId' visit'.graph visit'.callPath node' := by
  obtain ⟨hmatched, hnode, hcall, hnode', hrenames⟩ := h
  obtain ⟨hcalls, hcalls'⟩ := hmatched.calls hplaced hplaced'
  obtain ⟨c, hp⟩ := hcalls.placed
  obtain ⟨c', hp'⟩ := hcalls'.placed
  exact ⟨⟨c, _, _, hp, hnode, hcall, rfl⟩,
    ⟨c', _, _, hp', hnode', hrenames.isCall.trans hcall, rfl⟩⟩

/-- Facts that do not tell corresponding instances apart. -/
def SameFacts (rename : String → String → String) (project project' : ProjectDocument)
    (start start' : Visit) (projectId projectId' : String) (facts facts' : FingerprintFacts) :
      Prop :=
  ∀ visit visit' node node', Matched rename project project' start start' visit visit' →
    node ∈ visit.graph.document.nodes → isCall node = false →
    node' ∈ visit'.graph.document.nodes → NodeRenames (rename visit.graph.id) node node' →
    facts.implementationDigest node = facts'.implementationDigest node' ∧
      facts.cachePolicy node = facts'.cachePolicy node' ∧
      facts.secretRevisions (keyAt projectId visit.graph visit.callPath node) =
        facts'.secretRevisions (keyAt projectId' visit'.graph visit'.callPath node')

/-- The instances behind corresponding keys agree, up to a relation that holds
of what feeds the starts. -/
theorem Counterpart.agree (pairing : Pairing rename project project' start start')
    (hplaced : Placed project target caller start)
    (hplaced' : Placed project' target' caller' start')
    (hfacts : SameFacts rename project project' start start' projectId projectId' facts facts')
    (hR : ∀ key key', Counterpart rename project project' start start' projectId projectId' key key'
      → R key key')
    (hsupply : ∀ node node', node ∈ start.graph.document.nodes → node' ∈ start'.graph.document.nodes
      → NodeRenames (rename start.graph.id) node node' → SuppliedAlike R project project' projectId
      projectId' caller caller' start node node')
    (h : Counterpart rename project project' start start' projectId projectId' key key') :
    ∃ c visit node c' visit' node', Placed project target c visit ∧
      node ∈ visit.graph.document.nodes ∧ isCall node = false ∧
      key = keyAt projectId visit.graph visit.callPath node ∧
      Placed project' target' c' visit' ∧ node' ∈ visit'.graph.document.nodes ∧
      isCall node' = false ∧ key' = keyAt projectId' visit'.graph visit'.callPath node' ∧
      Agree R facts (instanceOf project projectId c visit node)
        facts' (instanceOf project' projectId' c' visit' node') := by
  obtain ⟨hmatched, hnode, hcall, hnode', hrenames⟩ := h
  rename_i visit visit' node node'
  obtain ⟨himplementation, hpolicy, hsecrets⟩ :=
    hfacts visit visit' node node' hmatched hnode hcall hnode' hrenames
  have hcall' : isCall node' = false := hrenames.isCall.trans hcall
  -- the starts are fed from outside, everything else from beneath them
  rcases hmatched.placed hplaced hplaced' with
    ⟨rfl, rfl⟩ | ⟨site, site', hs, hs', habove, hsite, hsites⟩
  · refine ⟨caller, visit, node, caller', visit', node', hplaced, hnode, hcall, rfl, hplaced',
      hnode', hcall', rfl, ?_⟩
    exact agree_instanceOf pairing hmatched hR hnode hrenames
      (hsupply node node' hnode hnode' hrenames) himplementation hpolicy hsecrets
  · refine ⟨some site, visit, node, some site', visit', node', hs, hnode, hcall, rfl, hs', hnode',
      hcall', rfl, ?_⟩
    have hsupplied :=
      suppliedAlike_of_sites pairing habove projectId projectId' rfl rfl hsite hsites
      visit hrenames
    exact agree_instanceOf pairing hmatched hR hnode hrenames
      ⟨hsupplied.connections.imp (fun _ _ h => ⟨h.1, hR _ _ h.2⟩), hsupplied.origins,
        hsupplied.draws⟩ himplementation hpolicy hsecrets

/-- Corresponding instances have equal fingerprints when the two starts are
fed alike. -/
theorem counterpart_fingerprints (pairing : Pairing rename project project' start start')
    (hexp : Expands project target projectId expanded)
    (hexp' : Expands project' target' projectId' expanded')
    (hplaced : Placed project target caller start)
    (hplaced' : Placed project' target' caller' start')
    (hfacts : SameFacts rename project project' start start' projectId projectId' facts facts')
    {sha256 : String → Fingerprint} {fps fps' : Dict InstanceKey Fingerprint}
    (hfps : computeFingerprints sha256 expanded facts = .ok fps)
    (hfps' : computeFingerprints sha256 expanded' facts' = .ok fps')
    (hsupply : ∀ node node', node ∈ start.graph.document.nodes → node' ∈ start'.graph.document.nodes
      → NodeRenames (rename start.graph.id) node node' → SuppliedAlike (fun key key' => fps.get? key
      = fps'.get? key') project project' projectId projectId' caller caller' start node node')
    (h : Counterpart rename project project' start start' projectId projectId' key key') :
    ∃ f, fps.get? key = some f ∧ fps'.get? key' = some f := by
  obtain ⟨hfingerprinted, hcovers⟩ := computeFingerprints_ok hfps
  obtain ⟨hfingerprinted', hcovers'⟩ := computeFingerprints_ok hfps'
  have hsupply' : ∀ node node', node ∈ start.graph.document.nodes →
      node' ∈ start'.graph.document.nodes → NodeRenames (rename start.graph.id) node node' →
      SuppliedAlike (fun key key' =>
        Counterpart rename project project' start start' projectId projectId' key key' ∨
          fps.get? key = fps'.get? key') project project' projectId projectId' caller caller' start
          node node' := by
    intro node node' hnode hnode' hrenames
    have hsupplied := hsupply node node' hnode hnode' hrenames
    exact ⟨hsupplied.connections.imp (fun _ _ h => ⟨h.1, Or.inr h.2⟩), hsupplied.origins,
      hsupplied.draws⟩
  have hall : ∀ key inst, expanded'.instances.get? key = some inst → (fps'.get? key).isSome := by
    intro key inst hinst
    exact hcovers' key ((hexp'.topological.covers key).mpr ⟨inst, hinst⟩)
  have hsome : (fps.get? key).isSome := by
    obtain ⟨⟨c, visit, node, hp, hnode, hcall, rfl⟩, -⟩ := h.placed hplaced hplaced'
    exact hcovers _ ((hexp.topological.covers _).mpr ⟨_, hexp.get hp hnode hcall⟩)
  obtain ⟨f, hf⟩ := Option.isSome_iff_exists.mp hsome
  refine ⟨f, hf, ?_⟩
  refine fingerprint_eq_of_simulation (R := fun key key' =>
    Counterpart rename project project' start start' projectId projectId' key key' ∨
      fps.get? key = fps'.get? key') hfingerprinted hfingerprinted' hall ?_ (Or.inl h) hf
  rintro k k' (hcounterpart | heq)
  · obtain ⟨c, visit, node, c', visit', node', hp, hnode, hcall, rfl, hp', hnode', hcall', rfl,
      hagree⟩ :=
      hcounterpart.agree pairing hplaced hplaced' hfacts (fun _ _ h => Or.inl h) hsupply'
    exact Or.inr ⟨_, _, hexp.get hp hnode hcall, hexp'.get hp' hnode' hcall', hagree⟩
  · exact Or.inl heq

end Fingerprints

end Grafy.Renaming
