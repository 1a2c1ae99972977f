import Grafy.Validation

/-!
The authoring commands: those that edit one Graph's document, and the project
commands that rename, add and remove Graphs, refresh a node, place a call or
point a graph command at one Graph. A command is a pure function of the values
it is applied to. It either yields a new document, whose constructors have
checked their rules, or it is rejected; a batch is applied as a whole or not
at all.
-/
namespace Grafy.Commands

open CanonicalJson DocumentRules Dumps GraphDocuments Loops OrderedDict Project Texts Validation

/-- A new position for one node, viewer or annotation. -/
structure Move where
  id : String
  x : FloatLiteral
  y : FloatLiteral

inductive GraphCommand
  | addAgent (agent : GraphAgent)
  | configureAgent (agent : GraphAgent)
  | removeAgent (agentId : String)
  | addNode (node : GraphNode)
  | duplicateNode (sourceNodeId : String) (node : GraphNode)
  | removeNodes (nodeIds : List String)
  | moveNodes (positions : List Move)
  | updateNodeConfiguration (nodeId field : String) (value expectedValue : Json)
  | updateNodeLayout (nodeId : String) (layout expectedLayout : Option GraphNodeLayout)
  | setNodeInputPlugs (nodeId : String) (inputPlugs : List GraphInputPlug)
      (expectedPlugIds : List String)
  | updateNodeConfigurationAndInputPlugs (nodeId : String) (config : Dict String Json)
      (inputPlugs : List GraphInputPlug) (expectedConfig : Dict String Json)
      (expectedPlugIds : List String)
  | setNodeArtifactTypeBinding (nodeId : String) (binding : GraphArtifactTypeBinding)
      (expectedBinding : Option GraphArtifactTypeBinding)
  | clearNodeArtifactTypeBinding (nodeId typeVariable : String)
      (expectedBinding : GraphArtifactTypeBinding)
  | addEdge (edge : GraphEdge)
  | updateEdge (edge expectedEdge : GraphEdge)
  | removeEdges (edgeIds : List String)
  | addOrigin (origin : GraphOrigin)
  | updateOrigin (origin expectedOrigin : GraphOrigin)
  | removeOrigins (originIds : List String)
  | replaceDocument (document : GraphDocument)
  | replacePresentation (presentation : GraphPresentationDocument)
  | moveArtifactViewers (positions : List Move)
  | moveAnnotations (positions : List Move)

inductive ProjectCommand
  | renameProject (name expectedName : String)
  | addGraph (graphId name : String) (document : GraphDocument)
  | renameGraph (graphId name expectedName : String)
  | removeGraph (graphId : String)
  | refreshNode (graphId nodeId : String) (expectedGeneration : ℕ)
  | addCallNode (graphId nodeId calleeGraphId : String) (position : GraphPoint)
  | inGraph (graphId : String) (command : GraphCommand)

/-- The datum whose expected value a command found changed. -/
inductive Conflict
  | configurationField (field node : String)
  | configuration (node : String)
  | layout (node : String)
  | inputPlugs (node : String)
  | binding (typeVariable node : String)
  | edge (id : String)
  | origin (id : String)
  | projectName (expected actual : String)
  | graphName (graph expected actual : String)
  | refreshGeneration (node : String) (expected actual : ℕ)
  deriving DecidableEq

/-- A rejected command, by its code and what its message names. -/
inductive Rejection
  | fieldConflict (datum : Conflict)
  | missingNode (id : String)
  | missingEdge (id : String)
  | missingOrigin (id : String)
  | missingViewer (id : String)
  | annotationMissing (id : String)
  | duplicateAgent (id : String)
  | unknownAgent (id : String)
  | duplicateNode (id : String)
  | duplicateEdge (id : String)
  | duplicateOrigin (id : String)
  | invalidEdgeUpdate
  | invalidOriginUpdate
  | unknownGraph (id : String)
  | duplicateGraph (id : String)
  | graphHasCallers (id : String) (callers : List (String × String))
  | missingCallee (id : String)
  | notRefreshable (graph node : String)
  | brokenProject (error : ProjectError)
  | graphName
  | invalidDocument (error : ValidationError)
  deriving DecidableEq

def ProjectError.code : ProjectError → String
  | .duplicateId _ => "duplicate_graph"
  | .duplicateName .. => "duplicate_graph"
  | .callVersion .. => "invalid_document"
  | .missingCallee .. => "missing_callee"
  | .callCycle _ => "graph_call_cycle"

def Rejection.code : Rejection → String
  | .fieldConflict _ => "field_conflict"
  | .missingNode _ => "missing_node"
  | .missingEdge _ => "missing_edge"
  | .missingOrigin _ => "missing_origin"
  | .missingViewer _ => "missing_viewer"
  | .annotationMissing _ => "missing_annotation"
  | .duplicateAgent _ => "duplicate_agent"
  | .unknownAgent _ => "unknown_agent"
  | .duplicateNode _ => "duplicate_node"
  | .duplicateEdge _ => "duplicate_edge"
  | .duplicateOrigin _ => "duplicate_origin"
  | .invalidEdgeUpdate => "invalid_edge_update"
  | .invalidOriginUpdate => "invalid_origin_update"
  | .unknownGraph _ => "unknown_graph"
  | .duplicateGraph _ => "duplicate_graph"
  | .graphHasCallers .. => "graph_has_callers"
  | .missingCallee _ => "missing_callee"
  | .notRefreshable .. => "not_refreshable"
  | .brokenProject error => ProjectError.code error
  | .graphName => "invalid_document"
  | .invalidDocument _ => "invalid_document"

abbrev Applied := Except Rejection

section Building

def accepted {E A : Type} (wrap : E → ValidationError) (result : Except E A) : Applied A :=
  result.mapError (fun error => .invalidDocument (wrap error))

/-- The constructor of a Graph's document: the structure is checked anew. -/
def buildDocument (document : GraphDocument) : Applied GraphDocument := do
  accepted .structure (validateStructure document)
  return document

def buildPresentation (presentation : GraphPresentationDocument) :
    Applied GraphPresentationDocument := do
  accepted .presentation (validatePresentation presentation)
  return presentation

/-- `with_topology`: what is not given is taken from the document. -/
def withNodes (document : GraphDocument) (nodes : List GraphNode) : Applied GraphDocument :=
  buildDocument { document with nodes := nodes }

def withEdges (document : GraphDocument) (edges : List GraphEdge) : Applied GraphDocument :=
  buildDocument { document with edges := edges }

def withOrigins (document : GraphDocument) (origins : List GraphOrigin) : Applied GraphDocument :=
  buildDocument { document with origins := origins }

def withPresentation (document : GraphDocument) (presentation : GraphPresentationDocument) :
    Applied GraphDocument := do
  let presentation ← buildPresentation presentation
  buildDocument { document with presentation := presentation }

/-- The constructor of a Graph whose id and name have met their constraints. -/
def buildGraph (graph : GraphDefinition) : Applied GraphDefinition := do
  accepted .graph (validateGraph graph)
  return graph

end Building

section Lookups

variable (document : GraphDocument)

def nodeOrRaise (nodeId : String) : Applied GraphNode :=
  match document.nodes.find? (fun node => node.id = nodeId) with
  | none => .error (.missingNode nodeId)
  | some node => .ok node

def edgeOrRaise (edgeId : String) : Applied GraphEdge :=
  match document.edges.find? (fun edge => edge.id = edgeId) with
  | none => .error (.missingEdge edgeId)
  | some edge => .ok edge

def originOrRaise (originId : String) : Applied GraphOrigin :=
  match document.origins.find? (fun origin => origin.id = originId) with
  | none => .error (.missingOrigin originId)
  | some origin => .ok origin

def bindingForVariable (node : GraphNode) (typeVariable : String) :
    Option GraphArtifactTypeBinding :=
  node.artifactTypeBindings.find? (fun binding => binding.typeVariable = typeVariable)

/-- `json.dumps` with sorted keys writes the same text. -/
def jsonEqual (left right : Json) : Bool := canonical left = canonical right

def plugIds (plugs : List GraphInputPlug) : List String := plugs.map GraphInputPlug.id

/-- The last position given for an id counts. -/
def positionOf (positions : List Move) (id : String) : Option GraphPoint :=
  (positions.reverse.find? (fun move => move.id = id)).map (fun move => ⟨move.x, move.y⟩)

end Lookups

section Edits

variable (document : GraphDocument)

/-- One node exchanged for its changed copy; a copy is not validated again. -/
def editNode (nodeId : String) (change : GraphNode → GraphNode) : List GraphNode :=
  document.nodes.map (fun node => if node.id = nodeId then change node else node)

/-- Edges that name a dropped plug of the node fall away with it. -/
def survivingEdges (nodeId : String) (retained : List String) : List GraphEdge :=
  document.edges.filter (fun edge =>
    edge.toNode ≠ nodeId ∨ edge.toPlug = none ∨ ∃ plug ∈ edge.toPlug, plug ∈ retained)

def survivingOrigins (nodeId : String) (retained : List String) : List GraphOrigin :=
  document.origins.filter (fun origin =>
    origin.toNode ≠ nodeId ∨ origin.toPlug = none ∨ ∃ plug ∈ origin.toPlug, plug ∈ retained)

/-- The presentation is left as it is when nothing is removed. -/
def pruneForRemovedNodes (presentation : GraphPresentationDocument) (removed : List String) :
    Applied GraphPresentationDocument :=
  if removed = [] then .ok presentation
  else buildPresentation { presentation with
    links := presentation.links.filter (fun link => link.sourceNodeId ∉ removed) }

def checkPlugIds (nodeId : String) (node : GraphNode) (expected : List String) : Applied Unit :=
  require (plugIds node.inputPlugs = expected) (.fieldConflict (.inputPlugs nodeId))

def replacePlugs (nodeId : String) (change : GraphNode → GraphNode) (plugs : List GraphInputPlug) :
    Applied GraphDocument :=
  buildDocument { document with
    nodes := editNode document nodeId change
    edges := survivingEdges document nodeId (plugIds plugs)
    origins := survivingOrigins document nodeId (plugIds plugs) }

end Edits

section GraphCommands

variable (destination : String → Option String) (document : GraphDocument)

/-- The agent commands validate the dump of the whole document again, with the
new agents put in its place as they are. -/
def withAgents (agents : List GraphAgent) : Applied GraphDocument :=
  (readDocumentWith destination (some agents) (dumpDocument document)).mapError .invalidDocument

def otherAgents (agentId : String) : List GraphAgent :=
  document.agents.filter (fun agent => agent.id ≠ agentId)

def HasAgent (agentId : String) : Prop := agentId ∈ document.agents.map GraphAgent.id

instance (agentId : String) : Decidable (HasAgent document agentId) :=
  inferInstanceAs (Decidable (_ ∈ _))

def addNode (node : GraphNode) : Applied GraphDocument := do
  require (node.id ∉ nodeIds document) (.duplicateNode node.id)
  withNodes document (document.nodes ++ [node])

def applyGraphCommand : GraphCommand → Applied GraphDocument
  | .addAgent agent => do
    require (¬ HasAgent document agent.id) (.duplicateAgent agent.id)
    withAgents destination document (otherAgents document agent.id ++ [agent])
  | .configureAgent agent => do
    require (HasAgent document agent.id) (.unknownAgent agent.id)
    withAgents destination document (otherAgents document agent.id ++ [agent])
  | .removeAgent agentId => do
    require (HasAgent document agentId) (.unknownAgent agentId)
    withAgents destination document (otherAgents document agentId)
  | .addNode node => addNode document node
  | .duplicateNode sourceNodeId node => do
    let _ ← nodeOrRaise document sourceNodeId
    addNode document node
  | .removeNodes removed => do
    let presentation ← pruneForRemovedNodes document.presentation removed
    buildDocument { document with
      nodes := document.nodes.filter (fun node => node.id ∉ removed)
      edges := document.edges.filter (fun edge => edge.fromNode ∉ removed ∧ edge.toNode ∉ removed)
      origins := document.origins.filter (fun origin => origin.toNode ∉ removed)
      presentation := presentation }
  | .moveNodes positions => do
    let _ ← positions.mapM (fun move => nodeOrRaise document move.id)
    withNodes document (document.nodes.map (fun node =>
      match positionOf positions node.id with
      | none => node
      | some point => { node with position := point }))
  | .updateNodeConfiguration nodeId field value expectedValue => do
    let node ← nodeOrRaise document nodeId
    -- a field that is absent reads as null
    require (jsonEqual ((node.config.get? field).getD .null) expectedValue)
      (.fieldConflict (.configurationField field nodeId))
    withNodes document (editNode document nodeId (fun candidate =>
      { candidate with config := candidate.config.set field value }))
  | .updateNodeLayout nodeId layout expectedLayout => do
    let node ← nodeOrRaise document nodeId
    require (jsonEqual (dumpOption dumpLayout node.layout) (dumpOption dumpLayout expectedLayout))
      (.fieldConflict (.layout nodeId))
    withNodes document
      (editNode document nodeId (fun candidate => { candidate with layout := layout }))
  | .setNodeInputPlugs nodeId inputPlugs expectedPlugIds => do
    let node ← nodeOrRaise document nodeId
    checkPlugIds nodeId node expectedPlugIds
    replacePlugs document nodeId
      (fun candidate => { candidate with inputPlugs := inputPlugs }) inputPlugs
  | .updateNodeConfigurationAndInputPlugs nodeId config inputPlugs expectedConfig expectedPlugIds =>
    do
    let node ← nodeOrRaise document nodeId
    require (jsonEqual (.obj node.config) (.obj expectedConfig))
      (.fieldConflict (.configuration nodeId))
    checkPlugIds nodeId node expectedPlugIds
    replacePlugs document nodeId (fun candidate =>
      { candidate with config := config, inputPlugs := inputPlugs }) inputPlugs
  | .setNodeArtifactTypeBinding nodeId binding expectedBinding => do
    let node ← nodeOrRaise document nodeId
    require (jsonEqual (dumpOption dumpBinding (bindingForVariable node binding.typeVariable))
        (dumpOption dumpBinding expectedBinding))
      (.fieldConflict (.binding binding.typeVariable nodeId))
    let remaining := node.artifactTypeBindings.filter (fun held =>
      held.typeVariable ≠ binding.typeVariable)
    withNodes document (editNode document nodeId (fun candidate =>
      { candidate with artifactTypeBindings := remaining ++ [binding] }))
  | .clearNodeArtifactTypeBinding nodeId typeVariable expectedBinding => do
    let node ← nodeOrRaise document nodeId
    require (jsonEqual (dumpOption dumpBinding (bindingForVariable node typeVariable))
        (dumpBinding expectedBinding))
      (.fieldConflict (.binding typeVariable nodeId))
    withNodes document (editNode document nodeId (fun candidate =>
      { candidate with artifactTypeBindings := candidate.artifactTypeBindings.filter (fun held =>
          held.typeVariable ≠ typeVariable) }))
  | .addEdge edge => do
    require (edge.id ∉ document.edges.map GraphEdge.id) (.duplicateEdge edge.id)
    withEdges document (document.edges ++ [edge])
  | .updateEdge edge expectedEdge => do
    let current ← edgeOrRaise document edge.id
    require (jsonEqual (dumpEdge current) (dumpEdge expectedEdge)) (.fieldConflict (.edge edge.id))
    require (edge.id = expectedEdge.id) .invalidEdgeUpdate
    withEdges document (document.edges.map (fun held => if held.id = edge.id then edge else held))
  | .removeEdges edgeIds =>
    withEdges document (document.edges.filter (fun edge => edge.id ∉ edgeIds))
  | .addOrigin origin => do
    require (origin.id ∉ document.origins.map GraphOrigin.id) (.duplicateOrigin origin.id)
    withOrigins document (document.origins ++ [origin])
  | .updateOrigin origin expectedOrigin => do
    let current ← originOrRaise document origin.id
    require (jsonEqual (dumpOrigin current) (dumpOrigin expectedOrigin))
      (.fieldConflict (.origin origin.id))
    require (origin.id = expectedOrigin.id) .invalidOriginUpdate
    withOrigins document (document.origins.map (fun held =>
      if held.id = origin.id then origin else held))
  | .removeOrigins originIds =>
    withOrigins document (document.origins.filter (fun origin => origin.id ∉ originIds))
  | .replaceDocument replacement => .ok replacement
  -- a presentation that comes with a command has been built already
  | .replacePresentation presentation => buildDocument
    { document with presentation := presentation }
  | .moveArtifactViewers positions => do
    let _ ← positions.mapM (fun move => require
      (move.id ∈ document.presentation.viewers.map GraphPresentationViewer.id)
      (.missingViewer move.id))
    withPresentation document { document.presentation with
      viewers := document.presentation.viewers.map (fun viewer =>
        match positionOf positions viewer.id with
        | none => viewer
        | some point => { viewer with position := point }) }
  | .moveAnnotations positions => do
    let _ ← positions.mapM (fun move => require
      (move.id ∈ document.presentation.annotations.map GraphPresentationAnnotation.id)
      (.annotationMissing move.id))
    withPresentation document { document.presentation with
      annotations := document.presentation.annotations.map (fun annotation =>
        match positionOf positions annotation.id with
        | none => annotation
        | some point => { annotation with position := point }) }

end GraphCommands

section ProjectCommands

variable (casefold : String → String)

/-- `_rebuild`: the project rules are checked before the value is built. -/
def rebuild (graphs : List GraphDefinition) : Applied ProjectDocument := do
  (checkProject casefold graphs).mapError .brokenProject
  return ⟨graphs⟩

def graphOrRaise (document : ProjectDocument) (graphId : String) : Applied GraphDefinition :=
  match document.getGraph graphId with
  | none => .error (.unknownGraph graphId)
  | some graph => .ok graph

/-- One Graph exchanged for its changed copy, which is built anew. -/
def changeGraph (document : ProjectDocument) (graphId : String)
    (change : GraphDefinition → GraphDefinition) : Applied ProjectDocument := do
  let graphs ← document.graphs.mapM (fun graph =>
    if graph.id = graphId then buildGraph (change graph) else .ok graph)
  rebuild casefold graphs

/-- Generations of nodes the new document does not have are dropped. -/
def replaceGraphDocument (project : ProjectDocument) (graphId : String) (document : GraphDocument) :
    Applied ProjectDocument :=
  changeGraph casefold project graphId (fun graph => { graph with
    document := document
    refreshGenerations := graph.refreshGenerations.filter (fun entry =>
      entry.1 ∈ nodeIds document) })

def setRefreshGeneration (project : ProjectDocument) (graphId nodeId : String) (generation : ℕ) :
    Applied ProjectDocument :=
  changeGraph casefold project graphId (fun graph => { graph with
    refreshGenerations := graph.refreshGenerations.set nodeId generation })

def checkedGraphName (name : String) : Applied String := do
  require (strip name ≠ "" ∧ (strip name).length ≤ graphNameMaxLength) .graphName
  return strip name

def callersOf (project : ProjectDocument) (graphId : String) : List (String × String) :=
  (project.graphs.flatMap (fun graph =>
    (graph.document.nodes.filter (fun node => isCall node ∧ node.operatorId = graphId)).map
      (fun node => (graph.id, node.id)))).insertionSort Fingerprints.PairLE

def removeGraph (project : ProjectDocument) (graphId : String) : Applied ProjectDocument := do
  let _ ← graphOrRaise project graphId
  require (callersOf project graphId = []) (.graphHasCallers graphId (callersOf project graphId))
  rebuild casefold (project.graphs.filter (fun graph => graph.id ≠ graphId))

/-- The generation a node is at: zero until it is first refreshed. -/
def generationOf (graph : GraphDefinition) (nodeId : String) : ℕ :=
  (graph.refreshGenerations.get? nodeId).getD 0

def callNode (nodeId calleeGraphId : String) (position : GraphPoint) : GraphNode :=
  ⟨.call, nodeId, calleeGraphId, callNodeOperatorVersion, [], position, none, [], []⟩

variable (destination : String → Option String) (name : String) (project : ProjectDocument)

def applyProjectCommand : ProjectCommand → Applied (String × ProjectDocument)
  | .renameProject newName expectedName => do
    require (name = expectedName) (.fieldConflict (.projectName expectedName name))
    return (newName, project)
  | .addGraph graphId graphName document => do
    require (graphId ∉ project.graphs.map GraphDefinition.id) (.duplicateGraph graphId)
    let graph ← buildGraph ⟨graphId, graphName, document, []⟩
    let project ← rebuild casefold (project.graphs ++ [graph])
    return (name, project)
  | .renameGraph graphId newName expectedName => do
    let graph ← graphOrRaise project graphId
    require (graph.name = expectedName)
      (.fieldConflict (.graphName graphId expectedName graph.name))
    let checked ← checkedGraphName newName
    let project ← changeGraph casefold project graphId (fun held => { held with name := checked })
    return (name, project)
  | .removeGraph graphId => do
    let project ← removeGraph casefold project graphId
    return (name, project)
  | .refreshNode graphId nodeId expectedGeneration => do
    let graph ← graphOrRaise project graphId
    let node ← nodeOrRaise graph.document nodeId
    require (¬ isCall node) (.notRefreshable graphId nodeId)
    let current := generationOf graph nodeId
    require (current = expectedGeneration)
      (.fieldConflict (.refreshGeneration nodeId expectedGeneration current))
    let project ← setRefreshGeneration casefold project graphId nodeId (current + 1)
    return (name, project)
  | .addCallNode graphId nodeId calleeGraphId position => do
    let caller ← graphOrRaise project graphId
    require (calleeGraphId ∈ project.graphs.map GraphDefinition.id) (.missingCallee calleeGraphId)
    require (nodeId ∉ nodeIds caller.document) (.duplicateNode nodeId)
    let document ← withNodes caller.document
      (caller.document.nodes ++ [callNode nodeId calleeGraphId position])
    let project ← replaceGraphDocument casefold project graphId document
    return (name, project)
  | .inGraph graphId command => do
    let graph ← graphOrRaise project graphId
    let document ← applyGraphCommand destination graph.document command
    let project ← replaceGraphDocument casefold project graphId document
    return (name, project)

/-- A batch is rejected at the index of its first rejected command. -/
inductive BatchError
  | empty
  | rejectedAt (index : ℕ) (rejection : Rejection)
  deriving DecidableEq

def applyAt (state : String × ProjectDocument) (entry : ProjectCommand × ℕ) :
    Except BatchError (String × ProjectDocument) :=
  (applyProjectCommand casefold destination state.1 state.2 entry.1).mapError (.rejectedAt entry.2)

def applyProjectCommands (commands : List ProjectCommand) :
    Except BatchError (String × ProjectDocument) :=
  if commands = [] then .error .empty
  else commands.zipIdx.foldlM (applyAt casefold destination) (name, project)

end ProjectCommands

/-- A batch that replaces a whole document or presentation carries no
comparison and is accepted at the observed sequence only. -/
def requiresExactSequence (commands : List ProjectCommand) : Bool :=
  commands.any (fun command =>
    match command with
    | .inGraph _ (.replaceDocument _) => true
    | .inGraph _ (.replacePresentation _) => true
    | _ => false)

end Grafy.Commands
