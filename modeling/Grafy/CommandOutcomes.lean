import Grafy.CommandSteps

/-!
What a graph command makes of a document, apart from when it is accepted. An
accepted command leaves its outcome, so what holds of the outcomes of all
commands holds of every accepted step.
-/
namespace Grafy.Commands

open DocumentRules GraphDocuments Loops Project Reloading Validation

section Outcomes

/-- The node a command edits in place. -/
def editsNode : GraphCommand → Option String
  | .updateNodeConfiguration nodeId .. => some nodeId
  | .updateNodeLayout nodeId .. => some nodeId
  | .setNodeInputPlugs nodeId .. => some nodeId
  | .updateNodeConfigurationAndInputPlugs nodeId .. => some nodeId
  | .setNodeArtifactTypeBinding nodeId .. => some nodeId
  | .clearNodeArtifactTypeBinding nodeId .. => some nodeId
  | _ => none

/-- The node once the command is accepted. -/
def edited : GraphCommand → GraphNode → GraphNode
  | .updateNodeConfiguration _ field value _, node =>
    { node with config := node.config.set field value }
  | .updateNodeLayout _ layout _, node => { node with layout := layout }
  | .setNodeInputPlugs _ plugs _, node => { node with inputPlugs := plugs }
  | .updateNodeConfigurationAndInputPlugs _ config plugs _ _, node =>
    { node with config := config, inputPlugs := plugs }
  | .setNodeArtifactTypeBinding _ binding _, node => { node with
      artifactTypeBindings := node.artifactTypeBindings.filter (fun held =>
        held.typeVariable ≠ binding.typeVariable) ++ [binding] }
  | .clearNodeArtifactTypeBinding _ typeVariable _, node => { node with
      artifactTypeBindings := node.artifactTypeBindings.filter (fun held =>
        held.typeVariable ≠ typeVariable) }
  | _, node => node

theorem edited_id (command : GraphCommand) (node : GraphNode) :
    (edited command node).id = node.id := by
  cases command <;> rfl

/-- The new position of a node, if it is given one. -/
def movedNode (positions : List Move) (node : GraphNode) : GraphNode :=
  match positionOf positions node.id with
  | none => node
  | some point => { node with position := point }

theorem movedNode_id (positions : List Move) (node : GraphNode) :
    (movedNode positions node).id = node.id := by
  unfold movedNode
  cases positionOf positions node.id <;> rfl

def movedViewer (positions : List Move) (viewer : GraphPresentationViewer) :
    GraphPresentationViewer :=
  match positionOf positions viewer.id with
  | none => viewer
  | some point => { viewer with position := point }

def movedCard (positions : List Move) (card : GraphPresentationAnnotation) :
    GraphPresentationAnnotation :=
  match positionOf positions card.id with
  | none => card
  | some point => { card with position := point }

def outcome (document : GraphDocument) : GraphCommand → GraphDocument
  | .addAgent agent => { document with agents := otherAgents document agent.id ++ [agent] }
  | .configureAgent agent => { document with agents := otherAgents document agent.id ++ [agent] }
  | .removeAgent agentId => { document with agents := otherAgents document agentId }
  | .addNode node => { document with nodes := document.nodes ++ [node] }
  | .duplicateNode _ node => { document with nodes := document.nodes ++ [node] }
  | .removeNodes removed => { document with
      nodes := document.nodes.filter (fun node => node.id ∉ removed)
      edges := document.edges.filter (fun edge => edge.fromNode ∉ removed ∧ edge.toNode ∉ removed)
      origins := document.origins.filter (fun origin => origin.toNode ∉ removed)
      presentation := { document.presentation with
        links := document.presentation.links.filter (fun link => link.sourceNodeId ∉ removed) } }
  | .moveNodes positions => { document with nodes := document.nodes.map (movedNode positions) }
  | .updateNodeConfiguration nodeId field value expectedValue => { document with
      nodes := editNode document nodeId
        (edited (.updateNodeConfiguration nodeId field value expectedValue)) }
  | .updateNodeLayout nodeId layout expectedLayout => { document with
      nodes := editNode document nodeId (edited (.updateNodeLayout nodeId layout expectedLayout)) }
  | .setNodeInputPlugs nodeId plugs ids => { document with
      nodes := editNode document nodeId (edited (.setNodeInputPlugs nodeId plugs ids))
      edges := survivingEdges document nodeId (plugIds plugs)
      origins := survivingOrigins document nodeId (plugIds plugs) }
  | .updateNodeConfigurationAndInputPlugs nodeId config plugs expectedConfig ids => { document with
      nodes := editNode document nodeId
        (edited (.updateNodeConfigurationAndInputPlugs nodeId config plugs expectedConfig ids))
      edges := survivingEdges document nodeId (plugIds plugs)
      origins := survivingOrigins document nodeId (plugIds plugs) }
  | .setNodeArtifactTypeBinding nodeId binding expectedBinding => { document with
      nodes := editNode document nodeId
        (edited (.setNodeArtifactTypeBinding nodeId binding expectedBinding)) }
  | .clearNodeArtifactTypeBinding nodeId typeVariable expectedBinding => { document with
      nodes := editNode document nodeId
        (edited (.clearNodeArtifactTypeBinding nodeId typeVariable expectedBinding)) }
  | .addEdge edge => { document with edges := document.edges ++ [edge] }
  | .updateEdge edge _ => { document with
      edges := document.edges.map (fun held => if held.id = edge.id then edge else held) }
  | .removeEdges edgeIds => { document with
      edges := document.edges.filter (fun edge => edge.id ∉ edgeIds) }
  | .addOrigin origin => { document with origins := document.origins ++ [origin] }
  | .updateOrigin origin _ => { document with
      origins := document.origins.map (fun held => if held.id = origin.id then origin else held) }
  | .removeOrigins originIds => { document with
      origins := document.origins.filter (fun origin => origin.id ∉ originIds) }
  | .replaceDocument replacement => replacement
  | .replacePresentation presentation => { document with presentation := presentation }
  | .moveArtifactViewers positions => { document with presentation := { document.presentation with
      viewers := document.presentation.viewers.map (movedViewer positions) } }
  | .moveAnnotations positions => { document with presentation := { document.presentation with
      annotations := document.presentation.annotations.map (movedCard positions) } }

end Outcomes

section Accepted

variable {destination : String → Option String} {document result : GraphDocument}
  {agents : List GraphAgent} {command : GraphCommand}

/-- With unique ids only the node that was found is edited. -/
theorem editNode_congr {nodeId : String} {node : GraphNode} {change change' : GraphNode → GraphNode}
    (hids : (nodeIds document).Nodup) (hnode : nodeOrRaise document nodeId = .ok node)
    (hchange : change node = change' node) :
    editNode document nodeId change = editNode document nodeId change' := by
  have hfind := nodeOrRaise_ok.mp hnode
  have hid : node.id = nodeId := by simpa using List.find?_some hfind
  apply List.map_congr_left
  intro held hheld
  split_ifs with hsame
  · obtain rfl : held = node := List.inj_on_of_nodup_map hids hheld
      (List.mem_of_find?_eq_some hfind) (hsame.trans hid.symm)
    exact hchange
  · rfl

theorem withPresentation_ok {presentation : GraphPresentationDocument} :
    withPresentation document presentation = .ok result ↔
      validatePresentation presentation = .ok () ∧
        validateStructure { document with presentation := presentation } = .ok () ∧
        result = { document with presentation := presentation } := by
  simp only [withPresentation, bind_ok, buildPresentation_ok, buildDocument_ok]
  constructor
  · rintro ⟨_, ⟨hpresentation, rfl⟩, hrules, rfl⟩
    exact ⟨hpresentation, hrules, rfl⟩
  · rintro ⟨hpresentation, hrules, rfl⟩
    exact ⟨_, ⟨hpresentation, rfl⟩, hrules, rfl⟩

theorem built_outcome {built : GraphDocument} {P : Prop} (h : buildDocument built = .ok result) :
    result = built ∧ (P → validateStructure result = .ok ()) := by
  obtain ⟨hrules, rfl⟩ := buildDocument_ok.mp h
  exact ⟨rfl, fun _ => hrules⟩

section

variable (hok : DocumentOk destination document)
include hok

theorem withAgents_ok (h : withAgents destination document agents = .ok result) :
    FiniteNodes document ∧ validateStructure { document with agents := agents } = .ok () ∧
      result = { document with agents := agents } := by
  obtain ⟨held, hheld, hfinite, hrules, rfl⟩ :=
    (readDocumentWith_dump_iff hok).mp (mapError_ok.mp h)
  obtain rfl : agents = held := Except.ok.inj hheld
  exact ⟨hfinite, hrules, rfl⟩

/-- An accepted command leaves its outcome, and checks its rules unless it brings the document. -/
theorem accepted_outcome (h : applyGraphCommand destination document command = .ok result) :
    result = outcome document command ∧
      ((∀ replacement, command ≠ .replaceDocument replacement) →
        validateStructure result = .ok ()) := by
  cases command with
  | addAgent agent | configureAgent agent | removeAgent agentId =>
    obtain ⟨_, -, h⟩ := bind_ok.mp h
    obtain ⟨-, hrules, rfl⟩ := withAgents_ok hok h
    exact ⟨rfl, fun _ => hrules⟩
  | addNode node | moveNodes positions | addEdge edge | addOrigin origin =>
    obtain ⟨_, -, h⟩ := bind_ok.mp h
    exact built_outcome h
  | duplicateNode source node | updateNodeConfiguration nodeId field value expectedValue
  | updateNodeLayout nodeId layout expectedLayout | setNodeInputPlugs nodeId plugs ids
  | clearNodeArtifactTypeBinding nodeId typeVariable expectedBinding =>
    obtain ⟨_, -, h⟩ := bind_ok.mp h
    obtain ⟨_, -, h⟩ := bind_ok.mp h
    exact built_outcome h
  | removeNodes removed =>
    obtain ⟨presentation, hpresentation, h⟩ := bind_ok.mp h
    obtain ⟨-, rfl⟩ := pruneForRemovedNodes_ok hpresentation hok.presentation.rules
    exact built_outcome h
  | updateNodeConfigurationAndInputPlugs nodeId config plugs expectedConfig ids
  | updateEdge edge expectedEdge | updateOrigin origin expectedOrigin =>
    obtain ⟨_, -, h⟩ := bind_ok.mp h
    obtain ⟨_, -, h⟩ := bind_ok.mp h
    obtain ⟨_, -, h⟩ := bind_ok.mp h
    exact built_outcome h
  | setNodeArtifactTypeBinding nodeId binding expectedBinding =>
    obtain ⟨node, hnode, h⟩ := bind_ok.mp h
    obtain ⟨_, -, h⟩ := bind_ok.mp h
    obtain ⟨hrules, rfl⟩ := buildDocument_ok.mp h
    have hids := (validateStructure_anchored hok.rules).nodeIds
    refine ⟨?_, fun _ => hrules⟩
    unfold outcome
    congr 1
    exact editNode_congr hids hnode rfl
  | replaceDocument replacement =>
    exact ⟨(Except.ok.inj h).symm, fun hother => absurd rfl (hother replacement)⟩
  | moveArtifactViewers positions | moveAnnotations positions =>
    obtain ⟨_, -, h⟩ := bind_ok.mp h
    obtain ⟨-, hrules, rfl⟩ := withPresentation_ok.mp h
    exact ⟨rfl, fun _ => hrules⟩
  | _ => exact built_outcome h

theorem applyGraphCommand_outcome {command : GraphCommand}
    (h : applyGraphCommand destination document command = .ok result) :
    result = outcome document command := (accepted_outcome hok h).1

end

/-- Only the nodes of a valid Graph are keys of its generations. -/
theorem mem_nodeIds_of_key {graph : GraphDefinition} (h : validateGraph graph = .ok ())
    {nodeId : String} (hkey : nodeId ∈ graph.refreshGenerations.keys) :
    nodeId ∈ nodeIds graph.document := by
  obtain ⟨_, hchecked, -⟩ := bind_ok.mp h
  have hsorted : nodeId ∈ sortedTexts graph.refreshGenerations.keys :=
    (List.perm_insertionSort _ _).mem_iff.mpr hkey
  obtain ⟨_, -, hone⟩ := Alignment.exists_right (mapM_ok hchecked) hsorted
  exact require_ok.mp hone

end Accepted

end Grafy.Commands
