import Grafy.CommandValidity
import Grafy.Edits

/-!
What a graph command writes, and what it does to each part of a document.
Every graph command but the two that replace a whole edits each part for
itself: it drops, changes or adds agents, nodes, edges, origins and parts of
the presentation, and a node's fields one by one. A field that is not written
stays what it is.
-/
namespace Grafy.Commutation

open CanonicalJson Commands Edits GraphDocuments OrderedDict

section Targets

/-- What a command writes itself. -/
inductive Target
  | node (id : String)
  | position (id : String)
  | configurationField (id field : String)
  | layout (id : String)
  | inputPlugs (id : String)
  | binding (id typeVariable : String)
  | edge (id : String)
  | origin (id : String)
  | viewer (id : String)
  | card (id : String)
  | agent (id : String)

/-- The node a target is, or is a part of. -/
def Target.node? : Target → Option String
  | .node id | .position id | .configurationField id _ | .layout id | .inputPlugs id
  | .binding id _ => some id
  | _ => none

/-- A node that is added or removed is written with all its fields, and a
configuration exchanged as a whole with every field. -/
def Writes : GraphCommand → Target → Prop
  | .addAgent agent, target => target = .agent agent.id
  | .configureAgent agent, target => target = .agent agent.id
  | .removeAgent agentId, target => target = .agent agentId
  | .addNode node, target => target.node? = some node.id
  | .duplicateNode _ node, target => target.node? = some node.id
  | .removeNodes removed, target => ∃ id ∈ removed, target.node? = some id
  | .moveNodes positions, target => ∃ move ∈ positions, target = .position move.id
  | .updateNodeConfiguration nodeId field _ _, target => target = .configurationField nodeId field
  | .updateNodeLayout nodeId _ _, target => target = .layout nodeId
  | .setNodeInputPlugs nodeId _ _, target => target = .inputPlugs nodeId
  | .updateNodeConfigurationAndInputPlugs nodeId _ _ _ _, target =>
    target = .inputPlugs nodeId ∨ ∃ field, target = .configurationField nodeId field
  | .setNodeArtifactTypeBinding nodeId binding _, target =>
    target = .binding nodeId binding.typeVariable
  | .clearNodeArtifactTypeBinding nodeId typeVariable _, target =>
    target = .binding nodeId typeVariable
  | .addEdge edge, target => target = .edge edge.id
  | .updateEdge edge _, target => target = .edge edge.id
  | .removeEdges edgeIds, target => ∃ id ∈ edgeIds, target = .edge id
  | .addOrigin origin, target => target = .origin origin.id
  | .updateOrigin origin _, target => target = .origin origin.id
  | .removeOrigins originIds, target => ∃ id ∈ originIds, target = .origin id
  | .moveArtifactViewers positions, target => ∃ move ∈ positions, target = .viewer move.id
  | .moveAnnotations positions, target => ∃ move ∈ positions, target = .card move.id
  | .replaceDocument _, _ => True
  | .replacePresentation _, target => ∃ id, target = .viewer id ∨ target = .card id

def Disjoint (a b : GraphCommand) : Prop := ∀ target, ¬ (Writes a target ∧ Writes b target)

theorem Disjoint.symm {a b : GraphCommand} (h : Disjoint a b) : Disjoint b a :=
  fun target hboth => h target hboth.symm

/-- All commands but those that replace a document or a presentation. -/
def IsEdit : GraphCommand → Bool
  | .replaceDocument _ | .replacePresentation _ => false
  | _ => true

end Targets

section Parts

def removedNodes : GraphCommand → List String
  | .removeNodes removed => removed
  | _ => []

def addedNodes : GraphCommand → List GraphNode
  | .addNode node | .duplicateNode _ node => [node]
  | _ => []

def newPosition (command : GraphCommand) (id : String) (position : GraphPoint) : GraphPoint :=
  match command with
  | .moveNodes positions => (positionOf positions id).getD position
  | _ => position

def newConfig (command : GraphCommand) (id : String) (config : Dict String Json) :
    Dict String Json :=
  match command with
  | .updateNodeConfiguration nodeId field value _ =>
    if id = nodeId then config.set field value else config
  | .updateNodeConfigurationAndInputPlugs nodeId written _ _ _ =>
    if id = nodeId then written else config
  | _ => config

def newLayout (command : GraphCommand) (id : String) (layout : Option GraphNodeLayout) :
    Option GraphNodeLayout :=
  match command with
  | .updateNodeLayout nodeId written _ => if id = nodeId then written else layout
  | _ => layout

def newPlugs (command : GraphCommand) (id : String) (plugs : List GraphInputPlug) :
    List GraphInputPlug :=
  match command with
  | .setNodeInputPlugs nodeId written _ => if id = nodeId then written else plugs
  | .updateNodeConfigurationAndInputPlugs nodeId _ written _ _ =>
    if id = nodeId then written else plugs
  | _ => plugs

def bindingEdit (command : GraphCommand) (id : String) : Edit GraphArtifactTypeBinding :=
  match command with
  | .setNodeArtifactTypeBinding nodeId binding _ =>
    if id = nodeId then ⟨fun held => held.typeVariable ≠ binding.typeVariable, fun b => b,
      [binding]⟩
    else Edit.skip
  | .clearNodeArtifactTypeBinding nodeId typeVariable _ =>
    if id = nodeId then ⟨fun held => held.typeVariable ≠ typeVariable, fun b => b, []⟩
      else Edit.skip
  | _ => Edit.skip

/-- A node's fields are written one by one. -/
def nodeChange (command : GraphCommand) (node : GraphNode) : GraphNode :=
  { node with
    position := newPosition command node.id node.position
    config := newConfig command node.id node.config
    layout := newLayout command node.id node.layout
    inputPlugs := newPlugs command node.id node.inputPlugs
    artifactTypeBindings := (bindingEdit command node.id).apply node.artifactTypeBindings }

def nodeEdit (command : GraphCommand) : Edit GraphNode :=
  ⟨fun node => node.id ∉ removedNodes command, nodeChange command, addedNodes command⟩

def agentEdit : GraphCommand → Edit GraphAgent
  | .addAgent agent | .configureAgent agent => ⟨fun held => held.id ≠ agent.id, fun a => a, [agent]⟩
  | .removeAgent agentId => ⟨fun held => held.id ≠ agentId, fun a => a, []⟩
  | _ => Edit.skip

/-- The parts of an edge or an origin that commands look at. -/
structure Wiring (W : Type) where
  idOf : W → String
  ends : W → List String
  toNode : W → String
  toPlug : W → Option String

def edgeWiring : Wiring GraphEdge :=
  ⟨GraphEdge.id, fun edge => [edge.fromNode, edge.toNode], GraphEdge.toNode, GraphEdge.toPlug⟩

def originWiring : Wiring GraphOrigin :=
  ⟨GraphOrigin.id, fun origin => [origin.toNode], GraphOrigin.toNode, GraphOrigin.toPlug⟩

/-- The node whose plugs are replaced, with the ids that stay. -/
def retainedPlugs : GraphCommand → Option (String × List String)
  | .setNodeInputPlugs nodeId plugs _ => some (nodeId, plugIds plugs)
  | .updateNodeConfigurationAndInputPlugs nodeId _ plugs _ _ => some (nodeId, plugIds plugs)
  | _ => none

/-- What a command writes of one kind of wire. -/
structure Written (W : Type) where
  dropped : List String
  updated : Option W
  added : List W

def writtenEdges : GraphCommand → Written GraphEdge
  | .addEdge edge => ⟨[], none, [edge]⟩
  | .updateEdge edge _ => ⟨[], some edge, []⟩
  | .removeEdges edgeIds => ⟨edgeIds, none, []⟩
  | _ => ⟨[], none, []⟩

def writtenOrigins : GraphCommand → Written GraphOrigin
  | .addOrigin origin => ⟨[], none, [origin]⟩
  | .updateOrigin origin _ => ⟨[], some origin, []⟩
  | .removeOrigins originIds => ⟨originIds, none, []⟩
  | _ => ⟨[], none, []⟩

variable {W : Type} (wiring : Wiring W) (command : GraphCommand) (written : Written W)

def KeepsWire (wire : W) : Prop :=
  (∀ node ∈ wiring.ends wire, node ∉ removedNodes command) ∧
    (∀ retained ∈ retainedPlugs command, wiring.toNode wire ≠ retained.1 ∨
      wiring.toPlug wire = none ∨ ∃ plug ∈ wiring.toPlug wire, plug ∈ retained.2) ∧
    wiring.idOf wire ∉ written.dropped

instance (wire : W) : Decidable (KeepsWire wiring command written wire) :=
  inferInstanceAs (Decidable (_ ∧ _ ∧ _))

def wireEdit : Edit W :=
  ⟨fun wire => KeepsWire wiring command written wire,
    fun held => written.updated.elim held (fun wire =>
      if wiring.idOf held = wiring.idOf wire then wire else held),
    written.added⟩

def edgeEdit (command : GraphCommand) : Edit GraphEdge :=
  wireEdit edgeWiring command (writtenEdges command)

def originEdit (command : GraphCommand) : Edit GraphOrigin :=
  wireEdit originWiring command (writtenOrigins command)

def viewerEdit : GraphCommand → Edit GraphPresentationViewer
  | .moveArtifactViewers positions => ⟨fun _ => true, movedViewer positions, []⟩
  | _ => Edit.skip

def cardEdit : GraphCommand → Edit GraphPresentationAnnotation
  | .moveAnnotations positions => ⟨fun _ => true, movedCard positions, []⟩
  | _ => Edit.skip

def linkEdit (command : GraphCommand) : Edit GraphPresentationLink :=
  ⟨fun link => link.sourceNodeId ∉ removedNodes command, id, []⟩

end Parts

variable {command : GraphCommand}

section Outcomes

theorem nodeChange_moveNodes (positions : List Move) (node : GraphNode) :
    nodeChange (.moveNodes positions) node = movedNode positions node := by
  unfold nodeChange movedNode
  simp only [newPosition, newConfig, newLayout, newPlugs, bindingEdit, Edit.skip_apply]
  cases positionOf positions node.id <;> rfl

theorem nodeChange_eq (hmoves : ∀ positions, command ≠ .moveNodes positions) (node : GraphNode) :
    nodeChange command node =
      if editsNode command = some node.id then edited command node else node := by
  unfold nodeChange
  cases command with
  | moveNodes positions => exact absurd rfl (hmoves positions)
  | updateNodeConfiguration nodeId field value expectedValue
  | updateNodeLayout nodeId layout expectedLayout | setNodeInputPlugs nodeId plugs ids
  | updateNodeConfigurationAndInputPlugs nodeId config plugs expectedConfig ids =>
    by_cases h : node.id = nodeId
    · simp [newPosition, newConfig, newLayout, newPlugs, bindingEdit, editsNode, edited, h]
    · simp [newPosition, newConfig, newLayout, newPlugs, bindingEdit, editsNode, h, Ne.symm h]
  | setNodeArtifactTypeBinding nodeId binding expectedBinding
  | clearNodeArtifactTypeBinding nodeId typeVariable expectedBinding =>
    by_cases h : node.id = nodeId
    · simp [newPosition, newConfig, newLayout, newPlugs, bindingEdit, editsNode, edited, h,
        Edit.apply]
    · simp [newPosition, newConfig, newLayout, newPlugs, bindingEdit, editsNode, h, Ne.symm h]
  | _ => simp [newPosition, newConfig, newLayout, newPlugs, bindingEdit, editsNode]

/-- A command that neither adds nor removes nodes changes them in place. -/
theorem nodeEdit_apply_eq_map (hremoved : removedNodes command = [])
    (hadded : addedNodes command = []) (nodes : List GraphNode) :
    (nodeEdit command).apply nodes = nodes.map (nodeChange command) := by
  have hkept : nodes.filter (nodeEdit command).keep = nodes :=
    List.filter_eq_self.mpr (fun node _ => by simp [nodeEdit, hremoved])
  unfold Edit.apply
  rw [hkept, show (nodeEdit command).added = [] from hadded, List.append_nil]
  rfl

section

variable (document : GraphDocument) (h : IsEdit command)
include document h

theorem nodes_outcome :
    (outcome document command).nodes = (nodeEdit command).apply document.nodes := by
  have hself : ∀ {command : GraphCommand}, editsNode command = none →
      (∀ positions, command ≠ .moveNodes positions) → ∀ node, nodeChange command node = node := by
    intro command hedits hmoves node
    rw [nodeChange_eq hmoves, hedits]
    simp
  have hadd : ∀ {command : GraphCommand} {node : GraphNode}, editsNode command = none →
      (∀ positions, command ≠ .moveNodes positions) → removedNodes command = [] →
      addedNodes command = [node] →
      (nodeEdit command).apply document.nodes = document.nodes ++ [node] := by
    intro command node hedits hmoves hremoved hadded
    have hkept : (document.nodes.filter (nodeEdit command).keep).map (nodeEdit command).change =
        document.nodes := by
      rw [List.filter_eq_self.mpr (fun node _ => by simp [nodeEdit, hremoved])]
      exact (List.map_congr_left (fun node _ => hself hedits hmoves node)).trans (List.map_id _)
    unfold Edit.apply
    rw [hkept]
    exact congrArg _ hadded
  have hedit : ∀ {command : GraphCommand} {nodeId : String}, editsNode command = some nodeId →
      (∀ positions, command ≠ .moveNodes positions) → removedNodes command = [] →
      addedNodes command = [] →
      (nodeEdit command).apply document.nodes = editNode document nodeId (edited command) := by
    intro command nodeId hedits hmoves hremoved hadded
    rw [nodeEdit_apply_eq_map hremoved hadded]
    apply List.map_congr_left
    intro node _
    rw [nodeChange_eq hmoves, hedits]
    simp only [Option.some.injEq, eq_comm]
  have hsame : ∀ {command : GraphCommand}, editsNode command = none →
      (∀ positions, command ≠ .moveNodes positions) → removedNodes command = [] →
      addedNodes command = [] → (nodeEdit command).apply document.nodes = document.nodes := by
    intro command hedits hmoves hremoved hadded
    rw [nodeEdit_apply_eq_map hremoved hadded]
    exact (List.map_congr_left (fun node _ => hself hedits hmoves node)).trans (List.map_id _)
  cases command with
  | addNode node | duplicateNode source node => exact (hadd rfl (by simp) rfl rfl).symm
  | removeNodes removed =>
    have hchange : ∀ node, nodeChange (.removeNodes removed) node = node := hself rfl (by simp)
    simp only [outcome, nodeEdit, Edit.apply, removedNodes, addedNodes, List.append_nil]
    exact ((List.map_congr_left (fun node _ => hchange node)).trans (List.map_id _)).symm
  | moveNodes positions =>
    rw [nodeEdit_apply_eq_map rfl rfl]
    exact (List.map_congr_left (fun node _ => nodeChange_moveNodes positions node)).symm
  | updateNodeConfiguration nodeId field value expectedValue
  | updateNodeConfigurationAndInputPlugs nodeId config plugs expectedConfig ids
  | setNodeArtifactTypeBinding nodeId binding expectedBinding
  | clearNodeArtifactTypeBinding nodeId typeVariable expectedBinding
  | updateNodeLayout nodeId layout expectedLayout | setNodeInputPlugs nodeId plugs ids =>
    exact (hedit rfl (by simp) rfl rfl).symm
  | replaceDocument replacement => simp [IsEdit] at h
  | replacePresentation presentation | _ => exact (hsame rfl (by simp) rfl rfl).symm

theorem agents_outcome :
    (outcome document command).agents = (agentEdit command).apply document.agents := by
  cases command with
  | addAgent agent | configureAgent agent | removeAgent agentId =>
    simp [outcome, agentEdit, Edit.apply, otherAgents]
  | replaceDocument replacement => simp [IsEdit] at h
  | _ => simp [outcome, agentEdit]

theorem edges_outcome :
    (outcome document command).edges = (edgeEdit command).apply document.edges := by
  cases command with
  | replaceDocument replacement => simp [IsEdit] at h
  | updateEdge edge expectedEdge =>
    simp only [outcome, edgeEdit, wireEdit, writtenEdges, Edit.apply, KeepsWire, removedNodes,
      retainedPlugs, edgeWiring, List.append_nil]
    rw [List.filter_eq_self.mpr (by simp)]
    rfl
  | _ =>
    simp [outcome, edgeEdit, wireEdit, writtenEdges, Edit.apply, KeepsWire, removedNodes,
      retainedPlugs, edgeWiring, survivingEdges]

theorem origins_outcome :
    (outcome document command).origins = (originEdit command).apply document.origins := by
  cases command with
  | replaceDocument replacement => simp [IsEdit] at h
  | updateOrigin origin expectedOrigin =>
    simp only [outcome, originEdit, wireEdit, writtenOrigins, Edit.apply, KeepsWire, removedNodes,
      retainedPlugs, originWiring, List.append_nil]
    rw [List.filter_eq_self.mpr (by simp)]
    rfl
  | _ =>
    simp [outcome, originEdit, wireEdit, writtenOrigins, Edit.apply, KeepsWire, removedNodes,
      retainedPlugs, originWiring, survivingOrigins]

theorem presentation_outcome : (outcome document command).presentation =
      ⟨(viewerEdit command).apply document.presentation.viewers,
        (linkEdit command).apply document.presentation.links, document.presentation.bindings,
        (cardEdit command).apply document.presentation.annotations⟩ := by
  cases command with
  | replaceDocument replacement | replacePresentation presentation => simp [IsEdit] at h
  | removeNodes removed =>
    simp only [outcome, viewerEdit, linkEdit, cardEdit, removedNodes, Edit.skip_apply]
    simp only [Edit.apply, List.map_id, List.append_nil]
    rfl
  | _ => simp [outcome, viewerEdit, linkEdit, cardEdit, removedNodes, Edit.apply, Edit.skip]

end

end Outcomes

variable {field : String}

section Fields

variable {id : String}

theorem positionOf_eq_none {positions : List Move} (h : ∀ move ∈ positions, move.id ≠ id) :
    positionOf positions id = none := by
  unfold positionOf
  rw [Option.map_eq_none_iff, List.find?_eq_none]
  intro move hmove
  simpa using h move (List.mem_reverse.mp hmove)

theorem newPosition_of_not_writes (h : ¬ Writes command (.position id)) (position : GraphPoint) :
    newPosition command id position = position := by
  cases command with
  | moveNodes positions =>
    have hnone : positionOf positions id = none := by
      apply positionOf_eq_none
      rintro move hmove rfl
      exact h ⟨move, hmove, rfl⟩
    simp [newPosition, hnone]
  | _ => rfl

theorem newLayout_of_not_writes (h : ¬ Writes command (.layout id))
    (layout : Option GraphNodeLayout) :
    newLayout command id layout = layout := by
  cases command with
  | updateNodeLayout nodeId written expected =>
    have hne : id ≠ nodeId := by
      rintro rfl
      exact h rfl
    simp [newLayout, hne]
  | _ => rfl

theorem newPlugs_of_not_writes (h : ¬ Writes command (.inputPlugs id))
    (plugs : List GraphInputPlug) :
    newPlugs command id plugs = plugs := by
  cases command with
  | setNodeInputPlugs nodeId written ids =>
    have hne : id ≠ nodeId := by
      rintro rfl
      exact h rfl
    simp [newPlugs, hne]
  | updateNodeConfigurationAndInputPlugs nodeId config written expectedConfig ids =>
    have hne : id ≠ nodeId := by
      rintro rfl
      exact h (Or.inl rfl)
    simp [newPlugs, hne]
  | _ => rfl

theorem newConfig_of_not_writes (h : ∀ field, ¬ Writes command (.configurationField id field))
    (config : Dict String Json) : newConfig command id config = config := by
  cases command with
  | updateNodeConfiguration nodeId field value expectedValue =>
    have hne : id ≠ nodeId := by
      rintro rfl
      exact h field rfl
    simp [newConfig, hne]
  | updateNodeConfigurationAndInputPlugs nodeId written plugs expectedConfig ids =>
    have hne : id ≠ nodeId := by
      rintro rfl
      exact h "" (Or.inr ⟨"", rfl⟩)
    simp [newConfig, hne]
  | _ => rfl

theorem get?_newConfig_of_not_writes (h : ¬ Writes command (.configurationField id field))
    (config : Dict String Json) : (newConfig command id config).get? field = config.get? field := by
  cases command with
  | updateNodeConfiguration nodeId written value expectedValue =>
    simp only [newConfig]
    split_ifs with hid
    · subst hid
      apply Dict.get?_set_ne
      rintro rfl
      exact h rfl
    · rfl
  | updateNodeConfigurationAndInputPlugs nodeId written plugs expectedConfig ids =>
    have hne : id ≠ nodeId := by
      rintro rfl
      exact h (Or.inr ⟨field, rfl⟩)
    simp [newConfig, hne]
  | _ => rfl

theorem get?_newConfig_congr {config config' : Dict String Json}
    (h : config.get? field = config'.get? field) :
    (newConfig command id config).get? field = (newConfig command id config').get? field := by
  cases command with
  | updateNodeConfiguration nodeId written value expectedValue =>
    simp only [newConfig]
    split_ifs
    · rw [Dict.get?_set, Dict.get?_set, h]
    · exact h
  | updateNodeConfigurationAndInputPlugs nodeId written plugs expectedConfig ids =>
    simp only [newConfig]
    split_ifs
    · rfl
    · exact h
  | _ => exact h

theorem bindingEdit_change (binding : GraphArtifactTypeBinding) :
    (bindingEdit command id).change binding = binding := by
  cases command with
  | setNodeArtifactTypeBinding nodeId written expected
  | clearNodeArtifactTypeBinding nodeId typeVariable expected =>
    simp only [bindingEdit]
    split_ifs <;> rfl
  | _ => rfl

theorem bindingEdit_keep (binding : GraphArtifactTypeBinding)
    (h : ¬ Writes command (.binding id binding.typeVariable)) :
    (bindingEdit command id).keep binding = true := by
  cases command with
  | setNodeArtifactTypeBinding nodeId written expected
  | clearNodeArtifactTypeBinding nodeId typeVariable expected =>
    simp only [bindingEdit]
    split_ifs with hid
    · subst hid
      simp only [decide_eq_true_iff]
      intro hsame
      exact h (by rw [Writes, hsame])
    · rfl
  | _ => rfl

theorem writes_of_mem_bindingEdit {binding : GraphArtifactTypeBinding}
    (h : binding ∈ (bindingEdit command id).added) :
    Writes command (.binding id binding.typeVariable) := by
  cases command with
  | setNodeArtifactTypeBinding nodeId written expected =>
    simp only [bindingEdit] at h
    split_ifs at h with hid
    · subst hid
      obtain rfl := List.mem_singleton.mp h
      rfl
    · simp [Edit.skip] at h
  | clearNodeArtifactTypeBinding nodeId typeVariable expected =>
    simp only [bindingEdit] at h
    split_ifs at h <;> simp [Edit.skip] at h
  | _ => simp [bindingEdit, Edit.skip] at h

theorem bindingEdit_of_not_writes (h : ∀ typeVariable, ¬ Writes command (.binding id typeVariable))
    (bindings : List GraphArtifactTypeBinding) : (bindingEdit command id).apply bindings =
      bindings := by
  apply Edit.apply_eq_self
  · exact fun binding _ => bindingEdit_keep binding (h _)
  · exact fun binding _ => bindingEdit_change binding
  · by_contra hadded
    obtain ⟨binding, hbinding⟩ := List.exists_mem_of_ne_nil _ hadded
    exact h _ (writes_of_mem_bindingEdit hbinding)

end Fields

end Grafy.Commutation
