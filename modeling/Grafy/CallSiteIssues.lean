import Grafy.CallerDefaults

/-!
The report on call sites. A change of a callee's interface is no document
error: the connections a callee cannot satisfy are reported at the call site
and skipped by the expansion. The two walks agree on every edge and origin.
They disagree on a required input at which only edges without a source are
drawn: it counts as satisfied here and receives nothing there.
-/
namespace Grafy.CallSites

open DocumentRules Expansion GraphDocuments Instances Loops OrderedDict Project

section Report

/-- One declared input or output of a Graph. -/
structure InterfacePort where
  name : String
  artifactType : Option ArtifactTypeKey
  required : Bool
  description : Option String

/-- The ports a Graph offers its call sites, in document order. -/
structure GraphInterface where
  inputs : List InterfacePort
  outputs : List InterfacePort

def GraphInterface.inputNames (interface : GraphInterface) : List String :=
  interface.inputs.map InterfacePort.name

def GraphInterface.outputNames (interface : GraphInterface) : List String :=
  interface.outputs.map InterfacePort.name

inductive CallSiteIssueKind
  | missingRequiredInput
  | unknownInputPort
  | unknownOutputPort
  deriving DecidableEq

def CallSiteIssueKind.text : CallSiteIssueKind → String
  | .missingRequiredInput => "missing_required_input"
  | .unknownInputPort => "unknown_input_port"
  | .unknownOutputPort => "unknown_output_port"

/-- One broken connection at a call node after an interface changed. -/
structure CallSiteIssue where
  graphId : String
  nodeId : String
  edgeId : Option String
  originId : Option String
  kind : CallSiteIssueKind
  port : String
  deriving DecidableEq

def graphArtifactTypeVariable : String := "T"

def configText (node : GraphNode) (key : String) : Option String :=
  match node.config.get? key with
  | some (.str text) => some text
  | _ => none

/-- Required unless the configuration says otherwise; validation has already
rejected a value that is no boolean. -/
def isRequired (node : GraphNode) : Bool :=
  match node.config.get? "required" with
  | some (.bool required) => required
  | _ => true

def artifactTypeBindingMap (node : GraphNode) : Dict String ArtifactTypeKey :=
  node.artifactTypeBindings.foldl (fun d binding => d.set binding.typeVariable binding.artifactType)
    []

def interfacePort (required : GraphNode → Bool) (node : GraphNode) : InterfacePort where
  name := publicName node
  artifactType := (artifactTypeBindingMap node).get? graphArtifactTypeVariable
  required := required node
  description := configText node "description"

def graphInterface (graph : GraphDefinition) : GraphInterface where
  inputs := (graph.document.nodes.filter isInput).map (interfacePort isRequired)
  outputs := (graph.document.nodes.filter isOutput).map (interfacePort (fun _ => true))

variable (graph : GraphDefinition) (node : GraphNode) (interface : GraphInterface)

def incomingEdges : List GraphEdge :=
  graph.document.edges.filter (fun edge => edge.toNode = node.id ∧ edge.enabled)

def outgoingEdges : List GraphEdge :=
  graph.document.edges.filter (fun edge => edge.fromNode = node.id ∧ edge.enabled)

def incomingOrigins : List GraphOrigin :=
  graph.document.origins.filter (fun origin => origin.toNode = node.id)

def satisfied : List String :=
  (incomingEdges graph node).map GraphEdge.toPort ++
    (incomingOrigins graph node).map GraphOrigin.toPort

/-- The issues of one call node: edges in, origins, edges out, and then the
required inputs at which nothing enabled is drawn. -/
def callNodeIssues : List CallSiteIssue :=
  ((incomingEdges graph node).filter (fun edge => edge.toPort ∉ interface.inputNames)).map
      (fun edge => ⟨graph.id, node.id, some edge.id, none, .unknownInputPort, edge.toPort⟩) ++
    ((incomingOrigins graph node).filter (fun origin => origin.toPort ∉ interface.inputNames)).map
      (fun origin => ⟨graph.id, node.id, none, some origin.id, .unknownInputPort, origin.toPort⟩) ++
    ((outgoingEdges graph node).filter (fun edge => edge.fromPort ∉ interface.outputNames)).map
      (fun edge => ⟨graph.id, node.id, some edge.id, none, .unknownOutputPort, edge.fromPort⟩) ++
    (interface.inputs.filter (fun port => port.required ∧ port.name ∉ satisfied graph node)).map
      (fun port => ⟨graph.id, node.id, none, none, .missingRequiredInput, port.name⟩)

/-- The key the report is sorted by. -/
def CallSiteIssue.sortKey (issue : CallSiteIssue) : List String :=
  [issue.graphId, issue.nodeId, issue.kind.text, issue.port, issue.edgeId.getD "",
    issue.originId.getD ""]

def graphIssues (project : ProjectDocument) : Except ExpansionError (List CallSiteIssue) := do
  let found ← (graph.document.nodes.filter isCall).mapM (fun node => do
    let callee ← getGraph project node.operatorId
    return callNodeIssues graph node (graphInterface callee))
  return found.flatten

/-- Every connection at a call node its callee interface cannot satisfy. -/
def callSiteIssues (project : ProjectDocument) : Except ExpansionError (List CallSiteIssue) := do
  let found ← project.graphs.mapM (fun graph => graphIssues graph project)
  return found.flatten.insertionSort (fun a b => a.sortKey ≤ b.sortKey)

end Report

variable {A : Type} {project : ProjectDocument} {graph : GraphDefinition} {node : GraphNode}
  {issues : List CallSiteIssue} {edge : GraphEdge} {origin : GraphOrigin}

section Reported

theorem mapM_flatten_exists {B E : Type} {f : A → Except E (List B)} {p : A → B → Prop} (l : List A)
    (h : ∀ a ∈ l, ∃ r, f a = .ok r ∧ ∀ b, b ∈ r ↔ p a b) :
    ∃ r, l.mapM f = .ok r ∧ ∀ b, b ∈ r.flatten ↔ ∃ a ∈ l, p a b := by
  induction l with
  | nil => exact ⟨[], rfl, by simp⟩
  | cons a rest ih =>
    obtain ⟨r, hr, hmem⟩ := h a (List.mem_cons_self ..)
    obtain ⟨rs, hrs, hmems⟩ := ih (fun c hc => h c (List.mem_cons_of_mem _ hc))
    exact ⟨r :: rs, mapM_cons_ok.mpr ⟨r, rs, hr, hrs, rfl⟩, by simp [hmem, hmems]⟩

variable {port : String}

/-- The report on a well-formed document is made, of the issues of each call. -/
theorem callSiteIssues_exists (hwf : WellFormed project) : ∃ issues,
    callSiteIssues project = .ok issues ∧ ∀ issue, issue ∈ issues ↔
      ∃ graph ∈ project.graphs, ∃ node ∈ graph.document.nodes, isCall node ∧
        ∃ callee, project.getGraph node.operatorId = some callee ∧
          issue ∈ callNodeIssues graph node (graphInterface callee) := by
  have hgraphs : ∀ graph ∈ project.graphs, ∃ found, graphIssues graph project = .ok found ∧
      ∀ issue, issue ∈ found ↔ ∃ node ∈ graph.document.nodes, isCall node ∧
        ∃ callee, project.getGraph node.operatorId = some callee ∧
          issue ∈ callNodeIssues graph node (graphInterface callee) := by
    intro graph hgraph
    obtain ⟨found, hfound, hmem⟩ := mapM_flatten_exists
      (f := fun node => (do
        let callee ← getGraph project node.operatorId
        return callNodeIssues graph node (graphInterface callee) :
          Except ExpansionError (List CallSiteIssue)))
      (p := fun node issue => ∃ callee, project.getGraph node.operatorId = some callee ∧
        issue ∈ callNodeIssues graph node (graphInterface callee))
      (graph.document.nodes.filter isCall) (by
        intro node hnode
        obtain ⟨hmem, hcall⟩ := List.mem_filter.mp hnode
        obtain ⟨callee, -, hcallee⟩ := exists_callee hwf hgraph hmem hcall
        exact ⟨callNodeIssues graph node (graphInterface callee),
          by simp [getGraph, hcallee, bind, Except.bind, pure, Except.pure], by simp [hcallee]⟩)
    refine ⟨found.flatten, bind_ok.mpr ⟨found, hfound, rfl⟩, ?_⟩
    intro issue
    rw [hmem]
    simp [and_assoc]
  obtain ⟨found, hfound, hmem⟩ := mapM_flatten_exists project.graphs hgraphs
  refine ⟨_, bind_ok.mpr ⟨found, hfound, rfl⟩, ?_⟩
  intro issue
  rw [(List.perm_insertionSort _ _).mem_iff, hmem]

theorem notMem_inputNames :
    port ∉ (graphInterface graph).inputNames ↔
      ∀ boundary ∈ graph.document.nodes, isInput boundary → publicName boundary ≠ port := by
  simp [GraphInterface.inputNames, graphInterface, interfacePort, and_assoc]

theorem notMem_outputNames :
    port ∉ (graphInterface graph).outputNames ↔
      ∀ boundary ∈ graph.document.nodes, isOutput boundary → publicName boundary ≠ port := by
  simp [GraphInterface.outputNames, graphInterface, interfacePort, and_assoc]

/-- What the report says of an edge: a port its callee does not declare. -/
def ReportsEdge (issues : List CallSiteIssue) (graph : GraphDefinition) (edge : GraphEdge) : Prop :=
  ∃ issue ∈ issues, issue.graphId = graph.id ∧ issue.edgeId = some edge.id ∧
    (issue.kind = .unknownInputPort ∨ issue.kind = .unknownOutputPort)

def ReportsOrigin (issues : List CallSiteIssue) (graph : GraphDefinition) (origin : GraphOrigin) :
    Prop :=
  ∃ issue ∈ issues, issue.graphId = graph.id ∧ issue.originId = some origin.id ∧
    (issue.kind = .unknownInputPort ∨ issue.kind = .unknownOutputPort)

def ReportsMissing (issues : List CallSiteIssue) (graph : GraphDefinition) (node : GraphNode)
    (port : String) : Prop :=
  ∃ issue ∈ issues, issue.graphId = graph.id ∧ issue.nodeId = node.id ∧
    issue.kind = .missingRequiredInput ∧ issue.port = port

theorem mem_callNodeIssues {interface : GraphInterface} {issue : CallSiteIssue} :
    issue ∈ callNodeIssues graph node interface ↔
      (∃ edge ∈ graph.document.edges, (edge.toNode = node.id ∧ edge.enabled) ∧
        edge.toPort ∉ interface.inputNames ∧
        ⟨graph.id, node.id, some edge.id, none, .unknownInputPort, edge.toPort⟩ = issue) ∨
      (∃ origin ∈ graph.document.origins, origin.toNode = node.id ∧
        origin.toPort ∉ interface.inputNames ∧
        ⟨graph.id, node.id, none, some origin.id, .unknownInputPort, origin.toPort⟩ = issue) ∨
      (∃ edge ∈ graph.document.edges, (edge.fromNode = node.id ∧ edge.enabled) ∧
        edge.fromPort ∉ interface.outputNames ∧
        ⟨graph.id, node.id, some edge.id, none, .unknownOutputPort, edge.fromPort⟩ = issue) ∨
      ∃ port ∈ interface.inputs, (port.required ∧ port.name ∉ satisfied graph node) ∧
        ⟨graph.id, node.id, none, none, .missingRequiredInput, port.name⟩ = issue := by
  simp only [callNodeIssues, incomingEdges, incomingOrigins, outgoingEdges, List.mem_append,
    List.mem_map, List.mem_filter, decide_eq_true_eq, or_assoc, and_assoc]

variable {casefold : String → String} (hvalid : project.Valid casefold)
  (hissues : ∀ issue, issue ∈ issues ↔ ∃ graph ∈ project.graphs, ∃ node ∈ graph.document.nodes,
    isCall node ∧ ∃ callee, project.getGraph node.operatorId = some callee ∧ issue ∈ callNodeIssues
    graph node (graphInterface callee)) (hgraph : graph ∈ project.graphs)
include hvalid hissues hgraph

theorem reportsEdge_iff (hedge : edge ∈ graph.document.edges) (henabled : edge.enabled) :
    ReportsEdge issues graph edge ↔
      Undeclared isInput project graph edge.toNode edge.toPort ∨
        Undeclared isOutput project graph edge.fromNode edge.fromPort := by
  have hedgeIds := (validateStructure_ok.mp (hvalid.structures graph hgraph)).edgeIds
  constructor
  · rintro ⟨issue, hissue, hid, hedgeId, -⟩
    obtain ⟨graph', hgraph', node, hnode, hcall, callee, hcallee, hmem⟩ := (hissues issue).mp hissue
    rcases mem_callNodeIssues.mp hmem with ⟨edge', hedge', ⟨hto, -⟩, hport, rfl⟩ |
      ⟨origin, -, -, -, rfl⟩ | ⟨edge', hedge', ⟨hfrom, -⟩, hport, rfl⟩ | ⟨port, -, -, rfl⟩
    · obtain rfl := List.inj_on_of_nodup_map hvalid.wellFormed.ids hgraph' hgraph hid
      obtain rfl := List.inj_on_of_nodup_map hedgeIds hedge' hedge (Option.some.inj hedgeId)
      exact Or.inl ⟨node, hnode, hto.symm, hcall, callee, hcallee, notMem_inputNames.mp hport⟩
    · simp at hedgeId
    · obtain rfl := List.inj_on_of_nodup_map hvalid.wellFormed.ids hgraph' hgraph hid
      obtain rfl := List.inj_on_of_nodup_map hedgeIds hedge' hedge (Option.some.inj hedgeId)
      exact Or.inr ⟨node, hnode, hfrom.symm, hcall, callee, hcallee, notMem_outputNames.mp hport⟩
    · simp at hedgeId
  · rintro (⟨node, hnode, hid, hcall, callee, hcallee, hno⟩ |
      ⟨node, hnode, hid, hcall, callee, hcallee, hno⟩)
    · exact ⟨_, (hissues _).mpr ⟨graph, hgraph, node, hnode, hcall, callee, hcallee,
        mem_callNodeIssues.mpr (Or.inl ⟨edge, hedge, ⟨hid.symm, henabled⟩,
          notMem_inputNames.mpr hno, rfl⟩)⟩, rfl, rfl, Or.inl rfl⟩
    · exact ⟨_, (hissues _).mpr ⟨graph, hgraph, node, hnode, hcall, callee, hcallee,
        mem_callNodeIssues.mpr (Or.inr (Or.inr (Or.inl ⟨edge, hedge, ⟨hid.symm, henabled⟩,
          notMem_outputNames.mpr hno, rfl⟩)))⟩, rfl, rfl, Or.inr rfl⟩

theorem reportsOrigin_iff (horigin : origin ∈ graph.document.origins) :
    ReportsOrigin issues graph origin ↔
      Undeclared isInput project graph origin.toNode origin.toPort := by
  have horiginIds := (validateStructure_ok.mp (hvalid.structures graph hgraph)).originIds
  constructor
  · rintro ⟨issue, hissue, hid, horiginId, -⟩
    obtain ⟨graph', hgraph', node, hnode, hcall, callee, hcallee, hmem⟩ := (hissues issue).mp hissue
    rcases mem_callNodeIssues.mp hmem with ⟨edge', -, -, -, rfl⟩ |
      ⟨origin', horigin', hto, hport, rfl⟩ | ⟨edge', -, -, -, rfl⟩ | ⟨port, -, -, rfl⟩
    · simp at horiginId
    · obtain rfl := List.inj_on_of_nodup_map hvalid.wellFormed.ids hgraph' hgraph hid
      obtain rfl := List.inj_on_of_nodup_map horiginIds horigin' horigin (Option.some.inj horiginId)
      exact ⟨node, hnode, hto.symm, hcall, callee, hcallee, notMem_inputNames.mp hport⟩
    · simp at horiginId
    · simp at horiginId
  · rintro ⟨node, hnode, hid, hcall, callee, hcallee, hno⟩
    exact ⟨_, (hissues _).mpr ⟨graph, hgraph, node, hnode, hcall, callee, hcallee,
      mem_callNodeIssues.mpr (Or.inr (Or.inl ⟨origin, horigin, hid.symm,
        notMem_inputNames.mpr hno, rfl⟩))⟩, rfl, rfl, Or.inl rfl⟩

/-- A required input is reported missing when nothing enabled is drawn there. -/
theorem reportsMissing_iff (hnode : node ∈ graph.document.nodes) (hcall : isCall node) :
    ReportsMissing issues graph node port ↔
      ∃ callee boundary, project.getGraph node.operatorId = some callee ∧
        boundary ∈ callee.document.nodes ∧ isInput boundary ∧ publicName boundary = port ∧
        isRequired boundary ∧ port ∉ satisfied graph node := by
  constructor
  · rintro ⟨issue, hissue, hid, hnodeId, hkind, hport⟩
    obtain ⟨graph', hgraph', node', hnode', -, callee, hcallee, hmem⟩ := (hissues issue).mp hissue
    rcases mem_callNodeIssues.mp hmem with ⟨edge', -, -, -, rfl⟩ | ⟨origin', -, -, -, rfl⟩ |
      ⟨edge', -, -, -, rfl⟩ | ⟨found, hfound, ⟨hrequired, hunsatisfied⟩, rfl⟩
    · simp at hkind
    · simp at hkind
    · simp at hkind
    · obtain rfl := List.inj_on_of_nodup_map hvalid.wellFormed.ids hgraph' hgraph hid
      obtain rfl :=
        List.inj_on_of_nodup_map (hvalid.wellFormed.anchored _ hgraph).nodeIds hnode' hnode
        hnodeId
      obtain ⟨boundary, hboundary, rfl⟩ := List.mem_map.mp hfound
      obtain ⟨hmemb, hin⟩ := List.mem_filter.mp hboundary
      obtain rfl : publicName boundary = port := hport
      exact ⟨callee, boundary, hcallee, hmemb, hin, rfl, hrequired, hunsatisfied⟩
  · rintro ⟨callee, boundary, hcallee, hboundary, hin, rfl, hrequired, hunsatisfied⟩
    exact ⟨_, (hissues _).mpr ⟨graph, hgraph, node, hnode, hcall, callee, hcallee,
      mem_callNodeIssues.mpr (Or.inr (Or.inr (Or.inr ⟨interfacePort isRequired boundary,
        List.mem_map.mpr ⟨boundary, List.mem_filter.mpr ⟨hboundary, hin⟩, rfl⟩,
        ⟨hrequired, hunsatisfied⟩, rfl⟩)))⟩, rfl, rfl, rfl, rfl⟩

end Reported

variable {target : GraphDefinition} {site : Site} {boundary : GraphNode}

section Skipped

variable (projectId : String) (found : List Visit) (visit : Visit)

/-- The pass over an edge leaves the connections of every instance alone. -/
def EdgeLeftOut (edge : GraphEdge) : Prop :=
  ∀ pending : Dict InstanceKey Pending, Keyed projectId found pending.keys →
    (wireEdge projectId (indexesOf found) (index visit.graph) visit.callPath pending edge).map
        (fun wired => wired.mapValues (fun _ item => item.connections)) =
      .ok (pending.mapValues (fun _ item => item.connections))

/-- The pass over an origin leaves the origins of every instance alone. -/
def OriginLeftOut (origin : GraphOrigin) : Prop :=
  ∀ pending : Dict InstanceKey Pending, Keyed projectId found pending.keys →
    (wireOrigin projectId (indexesOf found) (index visit.graph) visit.callPath pending origin).map
        (fun wired => wired.mapValues (fun _ item => (item.ownOrigins, item.callerOrigins))) =
      .ok (pending.mapValues (fun _ item => (item.ownOrigins, item.callerOrigins)))

/-- The pass over a visit gives an instance no connection and no origin. -/
def SuppliesNothing (key : InstanceKey) : Prop :=
  ∀ pending : Dict InstanceKey Pending, Keyed projectId found pending.keys →
    (wireVisit projectId (indexesOf found) pending visit).map
        (fun wired => (wired.get? key).map (fun item => (item.connections, item.callerOrigins))) =
      .ok ((pending.get? key).map (fun item => (item.connections, item.callerOrigins)))

variable {projectId found visit}

/-- A loop that gives every instance its gain shows none of it in a view just
when no gain changes the view. -/
theorem view_unchanged_iff (view : Pending → A) (gain : InstanceKey → Gain)
    {quiet : InstanceKey → Prop}
    (hview : ∀ key item, view (item.gain (gain key)) = view item ↔ quiet key)
    (pending : Dict InstanceKey Pending) :
    ((.ok (pending.mapValues (fun key item => item.gain (gain key))) :
        Except ExpansionError (Dict InstanceKey Pending)).map
          (fun wired => wired.mapValues (fun _ item => view item)) =
      .ok (pending.mapValues (fun _ item => view item))) ↔ ∀ key ∈ pending.keys, quiet key := by
  simp only [Except.map, Except.ok.injEq, Dict.mapValues, List.map_map]
  rw [List.map_inj_left]
  simp [Dict.keys, hview]

variable (stage : Stage project target found) (hvisit : visit ∈ found)
include stage hvisit

theorem targetOf_mem {toNode toPort : String} {key : InstanceKey} {viaCall : Bool}
    (h : targetOf project projectId visit toNode toPort = some (key, viaCall)) :
    key ∈ (pendingInstances projectId found).keys := by
  rw [mem_pending_keys stage]
  obtain ⟨node, hnode, -, ⟨hcall, -, rfl⟩ | ⟨hcall, -, callee, boundary, hcallee, hinput, rfl⟩⟩ :=
    targetOf_cases stage hvisit h
  · exact ⟨visit, hvisit, node, hnode, hcall, rfl⟩
  · obtain ⟨callee', hcallee', hmem, -⟩ := stage.callee hvisit hnode hcall
    cases hcallee.symm.trans hcallee'
    obtain ⟨hboundary, hin, -⟩ :=
      (declaredInput_iff stage.wellFormed (stage.mem_graphs hmem)).mp hinput
    exact ⟨_, hmem, boundary, hboundary,
      isCall_of_boundary stage.wellFormed (stage.mem_graphs hmem) hboundary (Or.inl hin), rfl⟩

/-- The expansion skips an enabled edge when one of its ends is undeclared. -/
theorem edgeLeftOut_iff (hedge : edge ∈ visit.graph.document.edges) (henabled : edge.enabled) :
    EdgeLeftOut projectId found visit edge ↔
      Undeclared isInput project visit.graph edge.toNode edge.toPort ∨
        Undeclared isOutput project visit.graph edge.fromNode edge.fromPort := by
  have hgraph := stage.mem_graphs hvisit
  have hto := ((stage.wellFormed.anchored _ hgraph).edges edge hedge).2
  have hview : ∀ key (item : Pending),
      (item.gain (edgeGain project projectId visit key edge)).connections = item.connections ↔
        (edgeGain project projectId visit key edge).connections = [] := by
    intro key item
    simp [Pending.gain]
  have hquiet : EdgeLeftOut projectId found visit edge ↔
      ∀ pending : Dict InstanceKey Pending, Keyed projectId found pending.keys →
        ∀ key ∈ pending.keys, (edgeGain project projectId visit key edge).connections = [] := by
    refine forall₂_congr (fun pending hkeys => ?_)
    rw [wireEdge_eq stage hkeys hvisit hedge]
    exact view_unchanged_iff Pending.connections _ hview pending
  rw [hquiet, ← targetOf_eq_none_iff projectId stage.wellFormed hgraph hto]
  constructor
  · intro h
    cases htarget : targetOf project projectId visit edge.toNode edge.toPort with
    | none => exact Or.inl rfl
    | some found' =>
      obtain ⟨key, viaCall⟩ := found'
      have hnone := h _ (keyed_pending stage projectId) key (targetOf_mem stage hvisit htarget)
      simp only [edgeGain, henabled, ↓reduceIte, arriving, htarget, Option.toList_eq_nil_iff]
        at hnone
      exact Or.inr
        ((connectionOf_eq_none_iff projectId stage.wellFormed hgraph hedge viaCall).mp hnone)
  · intro h pending hkeys key hkey
    simp only [edgeGain, henabled, ↓reduceIte, arriving]
    cases htarget : targetOf project projectId visit edge.toNode edge.toPort with
    | none => rfl
    | some found' =>
      obtain ⟨targetKey, viaCall⟩ := found'
      have hundeclared := h.resolve_left (by simp [htarget])
      have hnone := (connectionOf_eq_none_iff projectId stage.wellFormed hgraph hedge viaCall).mpr
        hundeclared
      by_cases heq : key = targetKey
      · simp [heq, hnone]
      · simp [heq]

theorem originLeftOut_iff (horigin : origin ∈ visit.graph.document.origins) :
    OriginLeftOut projectId found visit origin ↔
      Undeclared isInput project visit.graph origin.toNode origin.toPort := by
  have hgraph := stage.mem_graphs hvisit
  have hto := (stage.wellFormed.anchored _ hgraph).origins origin horigin
  have hview : ∀ key (item : Pending),
      ((item.gain (originGain project projectId visit key origin)).ownOrigins,
        (item.gain (originGain project projectId visit key origin)).callerOrigins) =
          (item.ownOrigins, item.callerOrigins) ↔
        (originGain project projectId visit key origin).ownOrigins = [] ∧
          (originGain project projectId visit key origin).callerOrigins = [] := by
    intro key item
    simp [Pending.gain]
  have hquiet : OriginLeftOut projectId found visit origin ↔
      ∀ pending : Dict InstanceKey Pending, Keyed projectId found pending.keys →
        ∀ key ∈ pending.keys,
        (originGain project projectId visit key origin).ownOrigins = [] ∧
          (originGain project projectId visit key origin).callerOrigins = [] := by
    refine forall₂_congr (fun pending hkeys => ?_)
    rw [wireOrigin_eq stage hkeys hvisit horigin]
    exact view_unchanged_iff (fun item => (item.ownOrigins, item.callerOrigins)) _ hview pending
  rw [hquiet, ← targetOf_eq_none_iff projectId stage.wellFormed hgraph hto]
  constructor
  · intro h
    cases htarget : targetOf project projectId visit origin.toNode origin.toPort with
    | none => rfl
    | some found' =>
      obtain ⟨key, viaCall⟩ := found'
      have hnone := h _ (keyed_pending stage projectId) key (targetOf_mem stage hvisit htarget)
      cases viaCall <;> simp [originGain, arriving, htarget] at hnone
  · intro htarget pending hkeys key hkey
    simp [originGain, arriving, htarget]

omit hvisit in
/-- An occurrence of a call leaves an input of its callee without a supply when
no edge with a source and no origin is drawn at the port. -/
theorem suppliesNothing_iff (hvisit : site.visit ∈ found)
    (hnode : site.node ∈ site.visit.graph.document.nodes) (hcall : isCall site.node)
    {callee : GraphDefinition} (hcallee : project.getGraph site.node.operatorId = some callee)
    (hboundary : boundary ∈ callee.document.nodes) (hinput : isInput boundary) :
    SuppliesNothing projectId found site.visit (keyAt projectId callee site.callPath boundary) ↔
      callerConnections project projectId (some site) boundary = [] ∧
        callerOrigins (some site) boundary = [] := by
  obtain ⟨callee', hcallee', hmem, -⟩ := stage.callee hvisit hnode hcall
  cases hcallee.symm.trans hcallee'
  have hbcall := isCall_of_boundary stage.wellFormed (stage.mem_graphs hmem) hboundary
    (Or.inl hinput)
  have harrives : Arrives project projectId site.visit
      (keyAt projectId callee site.callPath boundary) (atSite site boundary) true :=
    arrives_caller stage hvisit hnode hcall hcallee hboundary
  have hquiet : ∀ pending : Dict InstanceKey Pending, Keyed projectId found pending.keys →
      ((wireVisit projectId (indexesOf found) pending site.visit).map (fun wired =>
          (wired.get? (keyAt projectId callee site.callPath boundary)).map
            (fun item => (item.connections, item.callerOrigins))) =
        .ok ((pending.get? (keyAt projectId callee site.callPath boundary)).map
          (fun item => (item.connections, item.callerOrigins))) ↔
      callerConnections project projectId (some site) boundary = [] ∧
        callerOrigins (some site) boundary = []) := by
    intro pending hkeys
    have hkey : keyAt projectId callee site.callPath boundary ∈ pending.keys :=
      hkeys.covers _ hmem boundary hboundary hbcall
    obtain ⟨item, hitem⟩ := Option.isSome_iff_exists.mp (Dict.get?_isSome_of_mem_keys hkey)
    rw [wireVisit_eq stage hkeys hvisit]
    simp only [Except.map, Dict.get?_mapValues, hitem, Option.map_some, harrives.visitGain_eq]
    simp [Pending.gain, callerConnections, callerOrigins]
  exact ⟨fun h => (hquiet _ (keyed_pending stage projectId)).mp
    (h _ (keyed_pending stage projectId)),
    fun h pending hkeys => (hquiet pending hkeys).mpr h⟩

end Skipped

section Agreement

/-- The report and the expansion say the same of every occurrence of a Graph:
what is reported is what is skipped, and a required input is reported missing
when the call site supplies nothing there. -/
structure IssuesMatch (project : ProjectDocument) (issues : List CallSiteIssue) (projectId : String)
    (found : List Visit) : Prop where
  edges : ∀ visit ∈ found, ∀ edge ∈ visit.graph.document.edges, edge.enabled →
    (EdgeLeftOut projectId found visit edge ↔ ReportsEdge issues visit.graph edge)
  origins : ∀ visit ∈ found, ∀ origin ∈ visit.graph.document.origins,
    (OriginLeftOut projectId found visit origin ↔ ReportsOrigin issues visit.graph origin)
  missing : ∀ site : Site, site.visit ∈ found → site.node ∈ site.visit.graph.document.nodes →
    isCall site.node → ∀ port, ReportsMissing issues site.visit.graph site.node port ↔
      ∃ callee boundary, project.getGraph site.node.operatorId = some callee ∧
        boundary ∈ callee.document.nodes ∧ isInput boundary ∧ publicName boundary = port ∧
        isRequired boundary ∧ SuppliesNothing projectId found site.visit
          (keyAt projectId callee site.callPath boundary)

/-- A call has a required input at which only edges without a source are
drawn. -/
def RequiredDangling (project : ProjectDocument) (graph : GraphDefinition) : Prop :=
  ∃ node ∈ graph.document.nodes, isCall node ∧
    ∃ callee, project.getGraph node.operatorId = some callee ∧
      ∃ boundary ∈ callee.document.nodes, isInput boundary ∧ isRequired boundary ∧
        OnlyDangling project graph node.id (publicName boundary)

theorem mem_satisfied_iff (hinput : isInput boundary) :
    publicName boundary ∈ satisfied site.visit.graph site.node ↔
      callerDraws (some site) boundary := by
  rw [callerDraws_iff hinput, ne_eq, callerOrigins_eq_nil_iff hinput]
  simp only [satisfied, incomingEdges, incomingOrigins, List.mem_append, List.mem_map,
    List.mem_filter, decide_eq_true_eq, not_forall, not_not, exists_prop, ne_eq]
  constructor
  · rintro (⟨edge, ⟨hedge, hto, henabled⟩, hport⟩ | ⟨origin, ⟨horigin, hto⟩, hport⟩)
    · exact Or.inl ⟨edge, hedge, henabled, hto, hport⟩
    · exact Or.inr ⟨origin, horigin, hto, hport⟩
  · rintro (⟨edge, hedge, henabled, hto, hport⟩ | ⟨origin, horigin, hto, hport⟩)
    · exact Or.inl ⟨edge, ⟨hedge, hto, henabled⟩, hport⟩
    · exact Or.inr ⟨origin, ⟨horigin, hto⟩, hport⟩

variable {casefold : String → String} {project : ProjectDocument}

theorem issuesMatch_iff {projectId : String} {found : List Visit} (hvalid : project.Valid casefold)
    (stage : Stage project target found)
    (hissues : ∀ issue, issue ∈ issues ↔ ∃ graph ∈ project.graphs, ∃ node ∈ graph.document.nodes,
      isCall node ∧ ∃ callee, project.getGraph node.operatorId = some callee ∧ issue ∈
      callNodeIssues graph node (graphInterface callee)) :
    IssuesMatch project issues projectId found ↔
      ∀ visit ∈ found, ¬ RequiredDangling project visit.graph := by
  constructor
  · rintro hmatch visit hvisit ⟨node, hnode, hcall, callee, hcallee, boundary, hboundary, hinput,
      hrequired, hdangling⟩
    have hgraph := stage.mem_graphs hvisit
    have hsite : OnlyDangling project (Site.visit ⟨visit, node⟩).graph (Site.node ⟨visit, node⟩).id
        (publicName boundary) := hdangling
    obtain ⟨hdraws, hnothing⟩ :=
      (onlyDangling_iff projectId stage.wellFormed hgraph hinput).mp hsite
    have hsupplies : SuppliesNothing projectId found (Site.visit ⟨visit, node⟩)
        (keyAt projectId callee (Site.callPath ⟨visit, node⟩) boundary) :=
      (suppliesNothing_iff stage hvisit hnode hcall hcallee hboundary hinput).mpr hnothing
    have hmissing := (hmatch.missing ⟨visit, node⟩ hvisit hnode hcall (publicName boundary)).mpr
      ⟨callee, boundary, hcallee, hboundary, hinput, rfl, hrequired, hsupplies⟩
    obtain ⟨_, _, -, -, -, -, -, hunsatisfied⟩ :=
      (reportsMissing_iff hvalid hissues hgraph hnode hcall).mp hmissing
    exact hunsatisfied ((mem_satisfied_iff hinput).mpr hdraws)
  · intro hnone
    refine ⟨?_, ?_, ?_⟩
    · intro visit hvisit edge hedge henabled
      rw [edgeLeftOut_iff stage hvisit hedge henabled,
        reportsEdge_iff hvalid hissues (stage.mem_graphs hvisit) hedge henabled]
    · intro visit hvisit origin horigin
      rw [originLeftOut_iff stage hvisit horigin,
        reportsOrigin_iff hvalid hissues (stage.mem_graphs hvisit) horigin]
    · intro site hvisit hnode hcall port
      have hgraph := stage.mem_graphs hvisit
      rw [reportsMissing_iff hvalid hissues hgraph hnode hcall]
      refine exists₂_congr (fun callee boundary => ?_)
      refine and_congr_right (fun hcallee => and_congr_right (fun hboundary =>
        and_congr_right (fun hinput => and_congr_right (fun hname =>
          and_congr_right (fun hrequired => ?_)))))
      rw [suppliesNothing_iff stage hvisit hnode hcall hcallee hboundary hinput, ← hname,
        mem_satisfied_iff hinput]
      constructor
      · -- nothing is drawn at the port, so nothing arrives
        intro hdraws
        rw [callerDraws_iff hinput, not_or, not_not] at hdraws
        refine ⟨(callerConnections_eq_nil_iff projectId stage.wellFormed hgraph hinput).mpr ?_,
          hdraws.2⟩
        intro edge hedge henabled hto hport
        exact absurd ⟨edge, hedge, henabled, hto, hport⟩ hdraws.1
      · intro hnothing hdraws
        exact hnone _ hvisit ⟨site.node, hnode, hcall, callee, hcallee, boundary, hboundary, hinput,
          hrequired, (onlyDangling_iff projectId stage.wellFormed hgraph hinput).mpr
            ⟨hdraws, hnothing⟩⟩

/-- The report and the expansion agree on a target as long as no required input
of a call beneath it has only edges without a source. -/
theorem call_sites_agree_iff {graphId : String} {target : GraphDefinition}
    (hvalid : project.Valid casefold) (htarget : project.getGraph graphId = some target)
    (projectId : String) : ∃ found issues,
      visits project project.graphs.length target [] = .ok found ∧
        callSiteIssues project = .ok issues ∧ (IssuesMatch project issues projectId found ↔
          ∀ visit ∈ found, ¬ RequiredDangling project visit.graph) := by
  obtain ⟨found, stage⟩ := exists_stage hvalid.wellFormed htarget
  obtain ⟨issues, hissues, hmem⟩ := callSiteIssues_exists hvalid.wellFormed
  exact ⟨found, issues, stage.visits, hissues, issuesMatch_iff hvalid stage hmem⟩

end Agreement

section Example

open CallSharing

theorem not_requiredDangling
    (h : ∀ edge ∈ graph.document.edges, ∀ node ∈ graph.document.nodes, node.id = edge.fromNode →
      isCall node = false) : ¬ RequiredDangling project graph := by
  rintro ⟨node, -, -, callee, -, boundary, -, -, -, hdangling⟩
  obtain ⟨edge, hedge, henabled, hto, hport⟩ := hdangling.edge
  obtain ⟨source, hsource, hid, hcall, -⟩ := hdangling.undeclared edge hedge henabled hto hport
  simp [h edge hedge source hsource hid] at hcall

/-- Both calls read an ordinary node, and nothing is reported of them. -/
theorem fedAlike_sites_agree : ∃ found issues,
    visits (sharingProject fedAlike) 3 (mainGraph fedAlike) [] = .ok found ∧
      callSiteIssues (sharingProject fedAlike) = .ok issues ∧
      IssuesMatch (sharingProject fedAlike) issues "p" found := by
  have hvalid : (sharingProject fedAlike).Valid id :=
    sharingProject_valid (by decide) (by decide)
  have htarget : (sharingProject fedAlike).getGraph "main" = some (mainGraph fedAlike) := by rfl
  obtain ⟨found, issues, hfound, hissues, hiff⟩ := call_sites_agree_iff hvalid htarget "p"
  refine ⟨found, issues, hfound, hissues, hiff.mpr ?_⟩
  have hsources : ∀ graph ∈ (sharingProject fedAlike).graphs, ∀ edge ∈ graph.document.edges,
      ∀ node ∈ graph.document.nodes, node.id = edge.fromNode → isCall node = false := by
    decide
  intro visit hvisit
  obtain ⟨path, -, hcalls⟩ := calls_of_mem_visits _ hfound visit hvisit
  have hgraph := hcalls.mem_graphs (List.mem_of_find?_eq_some htarget)
  exact not_requiredDangling (hsources visit.graph hgraph)

/-- The input of the call receives nothing and is not reported missing. -/
theorem dangling_edge_unreported : (sharingProject fedByNothing).Valid id ∧ ∃ found issues,
    visits (sharingProject fedByNothing) 3 (mainGraph fedByNothing) [] = .ok found ∧
      callSiteIssues (sharingProject fedByNothing) = .ok issues ∧
      SuppliesNothing "p" found ⟨mainGraph fedByNothing, []⟩ ⟨"p", "pass", ["a"], "in", none⟩ ∧
      ¬ ReportsMissing issues (mainGraph fedByNothing) (callOf "a" "pass") "x" ∧
      ¬ IssuesMatch (sharingProject fedByNothing) issues "p" found := by
  have hvalid : (sharingProject fedByNothing).Valid id :=
    sharingProject_valid (by decide) (by decide)
  have htarget : (sharingProject fedByNothing).getGraph "main" = some (mainGraph fedByNothing) := by
    rfl
  obtain ⟨found, stage⟩ := exists_stage hvalid.wellFormed htarget
  obtain ⟨issues, hissues, hmem⟩ := callSiteIssues_exists hvalid.wellFormed
  have hvisit := stage.mem .here
  have hnode : callOf "a" "pass" ∈ (mainGraph fedByNothing).document.nodes := by simp [mainGraph]
  have hcallee : (sharingProject fedByNothing).getGraph "pass" = some passGraph := by rfl
  have hsupplies : SuppliesNothing "p" found (siteOf fedByNothing "a").visit
      (keyAt "p" passGraph (siteOf fedByNothing "a").callPath
        ⟨.builtin, "in", "graph.input", 1, [("public_name", .str "x")], default, none, [], []⟩) :=
    (suppliesNothing_iff stage hvisit hnode rfl hcallee (List.mem_singleton.mpr rfl) rfl).mpr
      ⟨by decide, by decide⟩
  have hunreported : ¬ ReportsMissing issues (mainGraph fedByNothing) (callOf "a" "pass") "x" := by
    rw [reportsMissing_iff hvalid hmem stage.known hnode rfl]
    rintro ⟨callee, boundary, -, -, -, -, -, hunsatisfied⟩
    exact hunsatisfied (by decide)
  refine ⟨hvalid, found, issues, stage.visits, hissues, hsupplies, hunreported, ?_⟩
  intro hmatch
  refine hunreported ((hmatch.missing (siteOf fedByNothing "a") hvisit hnode rfl "x").mpr ?_)
  exact ⟨passGraph, _, hcallee, List.mem_singleton.mpr rfl, rfl, rfl, rfl, hsupplies⟩

end Example

end Grafy.CallSites
