import Grafy.Commands

/-!
The authored document of the browser and its local commands. A command is
applied to a normalised document or throws. The normalising projections copy
field by field; a field that may be left out stands here for what the wire
schema reads then, so the projections change nothing.
-/
namespace Grafy.AuthoredGraphs

open CanonicalJson Commands GraphDocuments OrderedDict Texts

structure AuthoredGraphDocument where
  name : String
  nodes : List GraphNode
  edges : List GraphEdge
  origins : List GraphOrigin
  agents : List GraphAgent

/-- An update of an edge: a field that is not given stays. -/
structure EdgeUpdate where
  collectionMode : Option CollectionMode
  enabled : Option Bool
  projection : Option (Option GraphProjection)
  conversionPath : Option (List GraphConversion)
  routeOffset : Option (Option GraphPoint)
  toPlug : Option (Option String)
  fromPort : Option String
  toPort : Option String

structure OriginUpdate where
  toNode : Option String
  toPort : Option String
  toPlug : Option (Option String)
  value : Option ArtifactOutputValue
  collectionMode : Option CollectionMode
  conversionPath : Option (List GraphConversion)

/-- The local `GraphCommand`. -/
inductive LocalCommand
  | renameGraph (name : String)
  | addNode (node : GraphNode)
  | removeNodes (nodeIds : List String)
  | moveNodes (positions : List Move)
  | updateNodeConfiguration (nodeId field : String) (value : Json)
  | updateNodeLayout (nodeId : String) (layout : Option GraphNodeLayout)
  | addInputPlug (nodeId : String) (plug : GraphInputPlug)
  | removeInputPlug (nodeId plugId : String)
  | reorderInputPlug (nodeId port plugId : String) (toIndex : ℤ)
  | updateNodeConfigurationAndInputPlugs (nodeId : String) (config : Dict String Json)
      (inputPlugs : List GraphInputPlug)
  | bindArtifactType (nodeId typeVariable : String) (artifactType : ArtifactTypeKey)
  | resetArtifactTypeBinding (nodeId typeVariable : String)
  | addEdge (edge : GraphEdge)
  | updateEdge (edgeId : String) (update : EdgeUpdate)
  | removeEdges (edgeIds : List String)
  | addOrigin (origin : GraphOrigin)
  | updateOrigin (originId : String) (update : OriginUpdate)
  | removeOrigins (originIds : List String)
  | addAgent (agent : GraphAgent)
  | configureAgent (agent : GraphAgent)
  | removeAgent (agentId : String)
  | replaceDocument (document : AuthoredGraphDocument)

section Projections

/-- The code points `String.prototype.trim` drops. -/
def isTrimmed (c : Char) : Bool := (isWhiteSpace c && decide (c.toNat ≠ 133)) ||
    decide (c.toNat = 65279)

def trimmed (s : String) : String := String.ofList (trimChars isTrimmed s.toList)

def projectArtifactTypeBinding (binding : GraphArtifactTypeBinding) : GraphArtifactTypeBinding :=
  ⟨binding.typeVariable, ⟨binding.artifactType.id, binding.artifactType.schemaVersion⟩⟩

def projectSavedGraphInputPlug (plug : GraphInputPlug) : GraphInputPlug := ⟨plug.id, plug.port⟩

def projectSavedGraphLayout (layout : Option GraphNodeLayout) : Option GraphNodeLayout :=
  layout.map (fun held => ⟨held.width, held.bodyHeight, held.appendixHeight⟩)

def projectSavedGraphNode (node : GraphNode) : GraphNode where
  kind := node.kind
  id := node.id
  operatorId := node.operatorId
  operatorVersion := node.operatorVersion
  config := node.config
  position := ⟨node.position.x, node.position.y⟩
  layout := projectSavedGraphLayout node.layout
  inputPlugs := node.inputPlugs.map projectSavedGraphInputPlug
  artifactTypeBindings := node.artifactTypeBindings.map projectArtifactTypeBinding

def projectConversion (conversion : GraphConversion) : GraphConversion :=
  ⟨conversion.id, conversion.version⟩

def projectSavedGraphEdge (edge : GraphEdge) : GraphEdge where
  id := edge.id
  enabled := edge.enabled
  fromNode := edge.fromNode
  fromPort := edge.fromPort
  toNode := edge.toNode
  toPort := edge.toPort
  toPlug := edge.toPlug
  collectionMode := edge.collectionMode
  projection := edge.projection.map (fun held => ⟨held.path⟩)
  conversionPath := edge.conversionPath.map projectConversion
  routeOffset := edge.routeOffset.map (fun held => ⟨held.x, held.y⟩)

def projectSavedGraphOrigin (origin : GraphOrigin) : GraphOrigin where
  id := origin.id
  toNode := origin.toNode
  toPort := origin.toPort
  toPlug := origin.toPlug
  value := origin.value
  collectionMode := origin.collectionMode
  conversionPath := origin.conversionPath.map projectConversion

/-- The model choice is copied branch by branch. -/
def projectAgentModelChoice : AgentModel → AgentModel
  | .custom endpoint model => .custom endpoint model
  | .deployment => .deployment

def projectSavedGraphAgent (agent : GraphAgent) : GraphAgent where
  id := agent.id
  name := agent.name
  instructions := agent.instructions
  model := projectAgentModelChoice agent.model
  position := ⟨agent.position.x, agent.position.y⟩
  width := agent.width
  height := agent.height

@[simp] theorem map_projectSavedGraphInputPlug (plugs : List GraphInputPlug) :
    plugs.map projectSavedGraphInputPlug = plugs := List.map_id plugs

@[simp] theorem projectSavedGraphLayout_eq (layout : Option GraphNodeLayout) :
    projectSavedGraphLayout layout = layout := by
  cases layout <;> rfl

@[simp] theorem projectSavedGraphNode_eq (node : GraphNode) :
    projectSavedGraphNode node = node := by
  have hbindings : node.artifactTypeBindings.map projectArtifactTypeBinding =
      node.artifactTypeBindings := List.map_id _
  simp only [projectSavedGraphNode, hbindings, map_projectSavedGraphInputPlug,
    projectSavedGraphLayout_eq]

@[simp] theorem map_projectConversion (path : List GraphConversion) :
    path.map projectConversion = path := List.map_id path

@[simp] theorem projectSavedGraphEdge_eq (edge : GraphEdge) :
    projectSavedGraphEdge edge = edge := by
  have hprojection : edge.projection.map (fun held => GraphProjection.mk held.path) =
    edge.projection := by
    cases edge.projection <;> rfl
  have hoffset : edge.routeOffset.map (fun held => GraphPoint.mk held.x held.y) =
    edge.routeOffset := by
    cases edge.routeOffset <;> rfl
  simp only [projectSavedGraphEdge, hprojection, hoffset, map_projectConversion]

@[simp] theorem projectSavedGraphOrigin_eq (origin : GraphOrigin) :
    projectSavedGraphOrigin origin = origin := by
  simp only [projectSavedGraphOrigin, map_projectConversion]

@[simp] theorem projectSavedGraphAgent_eq (agent : GraphAgent) :
    projectSavedGraphAgent agent = agent := by
  have hmodel : projectAgentModelChoice agent.model = agent.model := by
    cases agent.model <;> rfl
  simp only [projectSavedGraphAgent, hmodel]

end Projections

section Drafts

def emptyPresentation : GraphPresentationDocument := ⟨[], [], [], []⟩

/-- Presentation entries that name something the document no longer holds are
dropped. -/
def presentationForDocument (presentation : GraphPresentationDocument) (nodes : List GraphNode) :
    GraphPresentationDocument :=
  let viewerIds := presentation.viewers.map GraphPresentationViewer.id
  { presentation with
    links := presentation.links.filter (fun link =>
      link.sourceNodeId ∈ nodes.map GraphNode.id ∧ link.targetViewerId ∈ viewerIds)
    bindings := presentation.bindings.filter (fun binding =>
      binding.sourceViewerId ∈ viewerIds ∧ binding.targetViewerId ∈ viewerIds) }

structure GraphDraft where
  name : String
  document : GraphDocument

def authoredGraphDocument (draft : GraphDraft) : AuthoredGraphDocument where
  name := draft.name
  nodes := draft.document.nodes.map projectSavedGraphNode
  edges := draft.document.edges.map projectSavedGraphEdge
  origins := draft.document.origins.map projectSavedGraphOrigin
  agents := draft.document.agents.map projectSavedGraphAgent

def createGraphDraft (document : AuthoredGraphDocument)
    (presentation : Option GraphPresentationDocument) :
    GraphDraft where
  name := trimmed document.name
  document :=
    { agents := document.agents.map projectSavedGraphAgent
      nodes := document.nodes.map projectSavedGraphNode
      edges := document.edges.map projectSavedGraphEdge
      origins := document.origins.map projectSavedGraphOrigin
      presentation := presentationForDocument (presentation.getD emptyPresentation) document.nodes }

end Drafts

section Commands

variable (document : AuthoredGraphDocument)

/-- Each lookup throws when the id is not there. -/
def nodeOrThrow (nodeId : String) : Option GraphNode :=
  document.nodes.find? (fun node => node.id = nodeId)

def edgeOrThrow (edgeId : String) : Option GraphEdge :=
  document.edges.find? (fun edge => edge.id = edgeId)

def originOrThrow (originId : String) : Option GraphOrigin :=
  document.origins.find? (fun origin => origin.id = originId)

def agentOrThrow (agentId : String) : Option GraphAgent :=
  document.agents.find? (fun agent => agent.id = agentId)

def updateNode (nodeId : String) (update : GraphNode → Option GraphNode) :
    Option AuthoredGraphDocument := do
  let _ ← nodeOrThrow document nodeId
  let nodes ← document.nodes.mapM (fun node => if node.id = nodeId then update node else some node)
  return { document with nodes := nodes }

/-- An edge with the given fields of an update put over its own. -/
def updatedEdge (update : EdgeUpdate) (edge : GraphEdge) : GraphEdge where
  id := edge.id
  enabled := update.enabled.getD edge.enabled
  fromNode := edge.fromNode
  fromPort := update.fromPort.getD edge.fromPort
  toNode := edge.toNode
  toPort := update.toPort.getD edge.toPort
  toPlug := update.toPlug.getD edge.toPlug
  collectionMode := update.collectionMode.getD edge.collectionMode
  projection := update.projection.getD edge.projection
  conversionPath := update.conversionPath.getD edge.conversionPath
  routeOffset := update.routeOffset.getD edge.routeOffset

def updatedOrigin (update : OriginUpdate) (origin : GraphOrigin) : GraphOrigin where
  id := origin.id
  toNode := update.toNode.getD origin.toNode
  toPort := update.toPort.getD origin.toPort
  toPlug := update.toPlug.getD origin.toPlug
  value := update.value.getD origin.value
  collectionMode := update.collectionMode.getD origin.collectionMode
  conversionPath := update.conversionPath.getD origin.conversionPath

/-- What is left of an update once its given fields have been copied. -/
def projectSavedGraphEdgeUpdate (update : EdgeUpdate) : EdgeUpdate where
  collectionMode := update.collectionMode
  enabled := update.enabled
  projection := update.projection.map (fun held => held.map (fun projection => ⟨projection.path⟩))
  conversionPath := update.conversionPath.map (fun path => path.map projectConversion)
  routeOffset := update.routeOffset.map (fun held => held.map (fun point => ⟨point.x, point.y⟩))
  toPlug := update.toPlug
  fromPort := update.fromPort
  toPort := update.toPort

def projectSavedGraphOriginUpdate (update : OriginUpdate) : OriginUpdate where
  toNode := update.toNode
  toPort := update.toPort
  toPlug := update.toPlug
  value := update.value
  collectionMode := update.collectionMode
  conversionPath := update.conversionPath.map (fun path => path.map projectConversion)

/-- The plug taken out at its place and put back at the new one. -/
def reorderPlugs (plugs : List GraphInputPlug) (port plugId : String) (toIndex : ℤ) :
    Option (List GraphInputPlug) :=
  let currentIndex := plugs.findIdx (fun plug => plug.id = plugId ∧ plug.port = port)
  plugs[currentIndex]?.map (fun plug =>
    let rest := plugs.eraseIdx currentIndex
    rest.insertIdx (max 0 (min toIndex rest.length)).toNat plug)

/-- Whether an edge or origin that ends at a plug is kept with the plugs. -/
def keepsPlug (nodeId : String) (retained : List String) (toNode : String)
    (toPlug : Option String) :
    Prop :=
  toNode ≠ nodeId ∨ toPlug = none ∨ ∃ plug ∈ toPlug, plug ∈ retained

instance (nodeId : String) (retained : List String) (toNode : String) (toPlug : Option String) :
    Decidable (keepsPlug nodeId retained toNode toPlug) :=
  inferInstanceAs (Decidable (_ ∨ _ ∨ _))

def applyGraphCommandNormalized : LocalCommand → Option AuthoredGraphDocument
  | .renameGraph name => some { document with name := name }
  | .addNode node =>
    if node.id ∈ document.nodes.map GraphNode.id then none
    else some { document with nodes := document.nodes ++ [projectSavedGraphNode node] }
  | .removeNodes removed => some { document with
      nodes := document.nodes.filter (fun node => node.id ∉ removed)
      edges := document.edges.filter (fun edge => edge.fromNode ∉ removed ∧ edge.toNode ∉ removed)
      origins := document.origins.filter (fun origin => origin.toNode ∉ removed) }
  | .moveNodes positions => do
    let _ ← positions.mapM (fun move => nodeOrThrow document move.id)
    return { document with nodes := document.nodes.map (fun node =>
      match positionOf positions node.id with
      | none => node
      | some point => { node with position := point }) }
  | .updateNodeConfiguration nodeId field value =>
    updateNode document nodeId
      (fun node => some { node with config := node.config.set field value })
  | .updateNodeLayout nodeId layout =>
    updateNode document nodeId
      (fun node => some { node with layout := projectSavedGraphLayout layout })
  | .addInputPlug nodeId plug =>
    updateNode document nodeId (fun node =>
      some { node with inputPlugs := node.inputPlugs ++ [projectSavedGraphInputPlug plug] })
  | .removeInputPlug nodeId plugId => do
    let next ← updateNode document nodeId (fun node =>
      some { node with inputPlugs := node.inputPlugs.filter (fun plug => plug.id ≠ plugId) })
    return { next with
      edges := next.edges.filter (fun edge => edge.toNode ≠ nodeId ∨ edge.toPlug ≠ some plugId)
      origins := next.origins.filter (fun origin =>
        origin.toNode ≠ nodeId ∨ origin.toPlug ≠ some plugId) }
  | .reorderInputPlug nodeId port plugId toIndex =>
    updateNode document nodeId (fun node =>
      (reorderPlugs node.inputPlugs port plugId toIndex).map (fun plugs =>
        { node with inputPlugs := plugs }))
  | .updateNodeConfigurationAndInputPlugs nodeId config plugs => do
    let next ← updateNode document nodeId (fun node =>
      some { node with config := config, inputPlugs := plugs.map projectSavedGraphInputPlug })
    let retained := plugs.map GraphInputPlug.id
    return { next with
      edges := next.edges.filter (fun edge => keepsPlug nodeId retained edge.toNode edge.toPlug)
      origins := next.origins.filter (fun origin =>
        keepsPlug nodeId retained origin.toNode origin.toPlug) }
  | .bindArtifactType nodeId typeVariable artifactType =>
    updateNode document nodeId (fun node => some { node with
      artifactTypeBindings := node.artifactTypeBindings.filter (fun binding =>
        binding.typeVariable ≠ typeVariable) ++
          [projectArtifactTypeBinding ⟨typeVariable, artifactType⟩] })
  | .resetArtifactTypeBinding nodeId typeVariable =>
    updateNode document nodeId (fun node => some { node with
      artifactTypeBindings := node.artifactTypeBindings.filter (fun binding =>
        binding.typeVariable ≠ typeVariable) })
  | .addEdge edge =>
    if edge.id ∈ document.edges.map GraphEdge.id then none
    else some { document with edges := document.edges ++ [projectSavedGraphEdge edge] }
  | .updateEdge edgeId update => do
    let _ ← edgeOrThrow document edgeId
    return { document with edges := document.edges.map (fun edge =>
      if edge.id = edgeId then updatedEdge (projectSavedGraphEdgeUpdate update) edge else edge) }
  | .removeEdges edgeIds => some { document with
      edges := document.edges.filter (fun edge => edge.id ∉ edgeIds) }
  | .addOrigin origin =>
    if origin.id ∈ document.origins.map GraphOrigin.id then none
    else some { document with origins := document.origins ++ [projectSavedGraphOrigin origin] }
  | .updateOrigin originId update => do
    let _ ← originOrThrow document originId
    return { document with origins := document.origins.map (fun origin =>
      if origin.id = originId then updatedOrigin (projectSavedGraphOriginUpdate update) origin
      else origin) }
  | .removeOrigins originIds => some { document with
      origins := document.origins.filter (fun origin => origin.id ∉ originIds) }
  | .addAgent agent =>
    if agent.id ∈ document.agents.map GraphAgent.id then none
    else some { document with agents := document.agents ++ [projectSavedGraphAgent agent] }
  | .configureAgent agent => do
    let _ ← agentOrThrow document agent.id
    return { document with agents := document.agents.map (fun held =>
      if held.id = agent.id then projectSavedGraphAgent agent else held) }
  -- an agent that is not there any more leaves nothing to filter
  | .removeAgent agentId => some { document with
      agents := document.agents.filter (fun agent => agent.id ≠ agentId) }
  | .replaceDocument replacement => some (authoredGraphDocument (createGraphDraft replacement none))

/-- The document is normalised first. -/
def applyGraphCommand (command : LocalCommand) : Option AuthoredGraphDocument :=
  applyGraphCommandNormalized (authoredGraphDocument (createGraphDraft document none)) command

end Commands

section Normalising

variable (document : AuthoredGraphDocument)

@[simp] theorem map_projectSavedGraphNode (nodes : List GraphNode) :
    nodes.map projectSavedGraphNode = nodes :=
  List.map_id'' projectSavedGraphNode_eq _

@[simp] theorem map_projectSavedGraphEdge (edges : List GraphEdge) :
    edges.map projectSavedGraphEdge = edges :=
  List.map_id'' projectSavedGraphEdge_eq _

@[simp] theorem map_projectSavedGraphOrigin (origins : List GraphOrigin) :
    origins.map projectSavedGraphOrigin = origins :=
  List.map_id'' projectSavedGraphOrigin_eq _

@[simp] theorem map_projectSavedGraphAgent (agents : List GraphAgent) :
    agents.map projectSavedGraphAgent = agents :=
  List.map_id'' projectSavedGraphAgent_eq _

@[simp] theorem projectSavedGraphEdgeUpdate_eq (update : EdgeUpdate) :
    projectSavedGraphEdgeUpdate update = update := by
  obtain ⟨mode, enabled, projection, path, offset, plug, fromPort, toPort⟩ := update
  have hprojection : (fun held : Option GraphProjection =>
      held.map (fun projection => GraphProjection.mk projection.path)) = id := by
    funext held
    cases held <;> rfl
  have hoffset : (fun held : Option GraphPoint =>
      held.map (fun point => GraphPoint.mk point.x point.y)) = id := by
    funext held
    cases held <;> rfl
  simp [projectSavedGraphEdgeUpdate, hprojection, hoffset]

@[simp] theorem projectSavedGraphOriginUpdate_eq (update : OriginUpdate) :
    projectSavedGraphOriginUpdate update = update := by
  simp [projectSavedGraphOriginUpdate]

/-- Normalising trims the name and copies the rest. -/
theorem authored_createGraphDraft (presentation : Option GraphPresentationDocument) :
    authoredGraphDocument (createGraphDraft document presentation) =
      { document with name := trimmed document.name } := by
  simp [authoredGraphDocument, createGraphDraft]

/-- An update that throws at no node changes the nodes with the id. -/
theorem updateNode_some (nodeId : String) (update : GraphNode → GraphNode) :
    updateNode document nodeId (fun node => some (update node)) =
      (nodeOrThrow document nodeId).map (fun _ => { document with
        nodes := document.nodes.map (fun node => if node.id = nodeId then update node
          else node) }) := by
  have hmap : document.nodes.mapM (fun node => if node.id = nodeId then some (update node)
    else some node) =
      some (document.nodes.map (fun node => if node.id = nodeId then update node else node)) := by
    refine Loops.mapM_some_eq_map ?_
    intro node _
    split_ifs <;> rfl
  simp only [updateNode, hmap]
  cases nodeOrThrow document nodeId <;> rfl

end Normalising

end Grafy.AuthoredGraphs
