import Grafy.AuthoredGraphs
import Grafy.CommandValidity
import Grafy.Doubles
import Grafy.RoomSession

/-!
The bridge between the room and the workbench. Accepted project commands are
replayed onto the confirmed head: some kinds edit the addressed Graph where it
stands, the others go through the local commands. What the browser replays is
what JSON.parse made of the head and of the command.
-/
namespace Grafy.RoomBridge

open AuthoredGraphs CanonicalJson Commands GraphDocuments OrderedDict Project RoomSession

section LocalCommands

/-- The graph command of a command addressed to the Graph. -/
def inGraphBody (graphId : String) : ProjectCommand → Option GraphCommand
  | .inGraph addressed body => if addressed = graphId then some body else none
  | _ => none

/-- The local command of an accepted graph command, given the open document.
A command about the presentation has none. -/
def toLocalBody (document : AuthoredGraphDocument) : GraphCommand → Option LocalCommand
  | .moveNodes positions =>
    some (.moveNodes (positions.map (fun move => ⟨move.id, move.x, move.y⟩)))
  | .addNode node => some (.addNode (projectSavedGraphNode node))
  | .removeNodes removed => some (.removeNodes removed)
  | .addEdge edge => some (.addEdge edge)
  | .removeEdges edgeIds => some (.removeEdges edgeIds)
  | .updateNodeConfiguration nodeId field value _ =>
    some (.updateNodeConfiguration nodeId field value)
  | .updateNodeLayout nodeId layout _ => some (.updateNodeLayout nodeId layout)
  | .updateNodeConfigurationAndInputPlugs nodeId config plugs _ _ =>
    some (.updateNodeConfigurationAndInputPlugs nodeId config plugs)
  | .setNodeArtifactTypeBinding nodeId binding _ =>
    some (.bindArtifactType nodeId binding.typeVariable binding.artifactType)
  | .clearNodeArtifactTypeBinding nodeId typeVariable _ =>
    some (.resetArtifactTypeBinding nodeId typeVariable)
  | .setNodeInputPlugs nodeId plugs _ =>
    (document.nodes.find? (fun node => node.id = nodeId)).map (fun node =>
      .updateNodeConfigurationAndInputPlugs nodeId node.config plugs)
  -- the ends of the edge are not among what is updated
  | .updateEdge edge _ => some (.updateEdge edge.id
      { collectionMode := some edge.collectionMode
        enabled := some edge.enabled
        projection := some edge.projection
        conversionPath := some edge.conversionPath
        routeOffset := some edge.routeOffset
        toPlug := none
        fromPort := none
        toPort := none })
  | .addOrigin origin => some (.addOrigin origin)
  | .updateOrigin origin _ => some (.updateOrigin origin.id
      { toNode := some origin.toNode
        toPort := some origin.toPort
        toPlug := some origin.toPlug
        value := some origin.value
        collectionMode := some origin.collectionMode
        conversionPath := some origin.conversionPath })
  | .removeOrigins originIds => some (.removeOrigins originIds)
  | .addAgent agent => some (.addAgent (projectSavedGraphAgent agent))
  | .configureAgent agent => some (.configureAgent (projectSavedGraphAgent agent))
  | .removeAgent agentId => some (.removeAgent agentId)
  | .replaceDocument replacement =>
    some (.replaceDocument (authoredGraphDocument ⟨document.name, replacement⟩))
  | .duplicateNode _ node => some (.addNode (projectSavedGraphNode node))
  | .replacePresentation _ | .moveArtifactViewers _ | .moveAnnotations _ => none

def toLocalGraphCommand (command : ProjectCommand) (document : AuthoredGraphDocument)
    (graphId : String) :
    Option LocalCommand :=
  (inGraphBody graphId command).bind (toLocalBody document)

end LocalCommands

section Parsing

/-- An integer of a field in the browser. Infinity is no integer: 0 stands for
it, which differs from every integer beyond the doubles. -/
def parsedInt (n : ℤ) : ℤ := (nearestDouble n).getD 0

def parsedNat (n : ℕ) : ℕ := (parsedInt n).toNat

theorem parsedNat_of_lt {n : ℕ} (h : n < 2 ^ 53) : parsedNat n = n := by
  rw [parsedNat, parsedInt, nearestDouble_of_lt (by simpa using h)]
  rfl

def parsedRef (ref : ArtifactRef) : ArtifactRef :=
  { ref with schemaVersion := parsedInt ref.schemaVersion }

def parsedValue : ArtifactOutputValue → ArtifactOutputValue
  | .ref value => .ref (parsedRef value)
  | .sequence value => .sequence { value with
      schemaVersion := parsedInt value.schemaVersion
      itemRefs := value.itemRefs.map parsedRef
      metadata := parsedJsonMembers value.metadata }

def parsedBinding (binding : GraphArtifactTypeBinding) : GraphArtifactTypeBinding :=
  { binding with artifactType := ⟨binding.artifactType.id,
    parsedInt binding.artifactType.schemaVersion⟩ }

def parsedConversion (conversion : GraphConversion) : GraphConversion :=
  { conversion with version := parsedNat conversion.version }

def parsedNode (node : GraphNode) : GraphNode :=
  { node with
    operatorVersion := parsedNat node.operatorVersion
    config := parsedJsonMembers node.config
    artifactTypeBindings := node.artifactTypeBindings.map parsedBinding }

def parsedEdge (edge : GraphEdge) : GraphEdge :=
  { edge with conversionPath := edge.conversionPath.map parsedConversion }

def parsedOrigin (origin : GraphOrigin) : GraphOrigin :=
  { origin with
    value := parsedValue origin.value
    conversionPath := origin.conversionPath.map parsedConversion }

def parsedPresentation (presentation : GraphPresentationDocument) : GraphPresentationDocument :=
  { presentation with viewers := presentation.viewers.map (fun viewer =>
      { viewer with artifactRef := viewer.artifactRef.map parsedValue }) }

/-- A document as JSON.parse gives it. -/
def parsedDocument (document : GraphDocument) : GraphDocument :=
  { document with
    nodes := document.nodes.map parsedNode
    edges := document.edges.map parsedEdge
    origins := document.origins.map parsedOrigin
    presentation := parsedPresentation document.presentation }

def parsedGraph (graph : GraphDefinition) : GraphDefinition :=
  { graph with
    document := parsedDocument graph.document
    refreshGenerations := graph.refreshGenerations.mapValues (fun _ count => parsedNat count) }

def parsedBody : GraphCommand → GraphCommand
  | .addNode node => .addNode (parsedNode node)
  | .duplicateNode source node => .duplicateNode source (parsedNode node)
  | .updateNodeConfiguration nodeId field value expectedValue =>
    .updateNodeConfiguration nodeId field (parsedJson value) (parsedJson expectedValue)
  | .updateNodeConfigurationAndInputPlugs nodeId config plugs expectedConfig ids =>
    .updateNodeConfigurationAndInputPlugs nodeId (parsedJsonMembers config) plugs
      (parsedJsonMembers expectedConfig) ids
  | .setNodeArtifactTypeBinding nodeId binding expectedBinding =>
    .setNodeArtifactTypeBinding nodeId (parsedBinding binding) (expectedBinding.map parsedBinding)
  | .clearNodeArtifactTypeBinding nodeId typeVariable expectedBinding =>
    .clearNodeArtifactTypeBinding nodeId typeVariable (parsedBinding expectedBinding)
  | .addEdge edge => .addEdge (parsedEdge edge)
  | .updateEdge edge expectedEdge => .updateEdge (parsedEdge edge) (parsedEdge expectedEdge)
  | .addOrigin origin => .addOrigin (parsedOrigin origin)
  | .updateOrigin origin expectedOrigin => .updateOrigin (parsedOrigin origin)
    (parsedOrigin expectedOrigin)
  | .replaceDocument document => .replaceDocument (parsedDocument document)
  | .replacePresentation presentation => .replacePresentation (parsedPresentation presentation)
  -- the other kinds carry texts, switches and floats only
  | body => body

def parsedCommand : ProjectCommand → ProjectCommand
  | .addGraph graphId name document => .addGraph graphId name (parsedDocument document)
  | .refreshNode graphId nodeId expectedGeneration =>
    .refreshNode graphId nodeId (parsedNat expectedGeneration)
  | .inGraph graphId body => .inGraph graphId (parsedBody body)
  | command => command

end Parsing

section Replay

/-- A new document for a Graph, whose other fields stay. -/
def withGraphDocument (graph : GraphDefinition) (document : GraphDocument) : GraphDefinition :=
  { graph with document := document }

def presentationFromGraphDocument (document : GraphDocument) : GraphPresentationDocument :=
  let presentation := document.presentation
  ⟨presentation.viewers, presentation.links, presentation.bindings, presentation.annotations⟩

def presentationIntoDocument (document : GraphDocument) (presentation : GraphPresentationDocument) :
    GraphDocument :=
  { document with presentation :=
      ⟨presentation.viewers, presentation.links, presentation.bindings, presentation.annotations⟩ }

def prunePresentationLinks (presentation : GraphPresentationDocument) (removed : List String) :
    GraphPresentationDocument :=
  if removed = [] then presentation
  else { presentation with
    links := presentation.links.filter (fun link => link.sourceNodeId ∉ removed) }

abbrev ProjectHead := RoomSession.Head ProjectDocument

/-- A command for a Graph the head does not hold still moves the sequence. -/
def mapGraphDocument (head : ProjectHead) (graphId : String)
    (update : GraphDefinition → Option GraphDefinition) (sequence : ℕ) : Option ProjectHead :=
  if graphId ∉ head.document.graphs.map GraphDefinition.id then
    some { head with collaborationSequence := sequence }
  else do
    let graphs ← head.document.graphs.mapM (fun graph =>
      if graph.id = graphId then update graph else some graph)
    return { head with document := ⟨graphs⟩, collaborationSequence := sequence }

/-- Links of removed nodes go, the rest of the presentation stays. -/
def keptPresentation (presentation : GraphPresentationDocument) : LocalCommand →
    GraphPresentationDocument
  | .removeNodes removed => prunePresentationLinks presentation removed
  | _ => presentation

/-- The replay through the local command, which may throw. -/
def replayLocally (command : ProjectCommand) (graph : GraphDefinition) : Option GraphDefinition :=
  let base := authoredGraphDocument ⟨graph.name, graph.document⟩
  match toLocalGraphCommand command base graph.id with
  | none => some graph
  | some localCommand => do
    let nextDocument ← AuthoredGraphs.applyGraphCommand base localCommand
    let presentation := keptPresentation (presentationFromGraphDocument graph.document) localCommand
    return withGraphDocument graph (createGraphDraft nextDocument (some presentation)).document

/-- What becomes of the addressed Graph. -/
def replayInGraph (graphId : String) (body : GraphCommand) (graph : GraphDefinition) :
    Option GraphDefinition :=
  match body with
  | .replaceDocument document => some (withGraphDocument graph document)
  | .replacePresentation presentation =>
    some (withGraphDocument graph { graph.document with presentation := presentation })
  | .moveArtifactViewers positions =>
    let presentation := presentationFromGraphDocument graph.document
    some (withGraphDocument graph (presentationIntoDocument graph.document { presentation with
      viewers := presentation.viewers.map (fun viewer =>
        match positionOf positions viewer.id with
        | none => viewer
        | some point => { viewer with position := point }) }))
  | .moveAnnotations positions =>
    let presentation := presentationFromGraphDocument graph.document
    some (withGraphDocument graph (presentationIntoDocument graph.document { presentation with
      annotations := presentation.annotations.map (fun card =>
        match positionOf positions card.id with
        | none => card
        | some point => { card with position := point }) }))
  | .setNodeInputPlugs nodeId plugs _ =>
    some (withGraphDocument graph { graph.document with
      nodes := graph.document.nodes.map (fun node =>
        if node.id = nodeId then { node with inputPlugs := plugs } else node) })
  | _ => replayLocally (.inGraph graphId body) graph

/-- The head as the browser holds it. -/
def parsedHead (head : ProjectHead) : ProjectHead :=
  { head with document := ⟨head.document.graphs.map parsedGraph⟩ }

def applyRoomCommandToHead (head : ProjectHead) (command : ProjectCommand) (sequence : ℕ) :
    Option ProjectHead :=
  match command with
  | .renameProject name _ => some { head with name := name, collaborationSequence := sequence }
  | .addGraph graphId name document =>
    if graphId ∈ head.document.graphs.map GraphDefinition.id then
      some { head with collaborationSequence := sequence }
    else some { head with
      document := ⟨head.document.graphs ++ [⟨graphId, name, document, []⟩]⟩
      collaborationSequence := sequence }
  | .removeGraph graphId => some { head with
      document := ⟨head.document.graphs.filter (fun graph => graph.id ≠ graphId)⟩
      collaborationSequence := sequence }
  | .renameGraph graphId name _ => some { head with
      document := ⟨head.document.graphs.map (fun graph =>
        if graph.id = graphId then { graph with name := name } else graph)⟩
      collaborationSequence := sequence }
  -- the generation a refresh raises is not raised here
  | .refreshNode .. => some { head with collaborationSequence := sequence }
  -- only a node that is already there becomes a call
  | .addCallNode graphId nodeId _ position =>
    mapGraphDocument head graphId (fun graph => some (withGraphDocument graph { graph.document with
      nodes := graph.document.nodes.map (fun node =>
        if node.id = nodeId then { node with kind := .call, position := position } else node) }))
          sequence
  | .inGraph graphId body => mapGraphDocument head graphId (replayInGraph graphId body) sequence

def applyRoomCommandsToHead (head : ProjectHead) (commands : List ProjectCommand) (sequence : ℕ) :
    Option ProjectHead :=
  commands.foldlM (fun next command => applyRoomCommandToHead next command sequence) head

end Replay

end Grafy.RoomBridge
