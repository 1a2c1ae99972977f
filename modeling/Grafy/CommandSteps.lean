import Grafy.Commands
import Grafy.Reloading

/-!
What an accepted command has done. A constructor that accepts returns the
value it was given and has found its rules kept; a command that changes one
Graph leaves every other Graph as it was. The values a command carries have
been validated when the command was read, and they are all that is assumed
of it.
-/
namespace Grafy.Commands

open DocumentRules GraphDocuments Loops Project Reloading Validation

variable {A E : Type} {document : GraphDocument} {presentation : GraphPresentationDocument}
  {graph : GraphDefinition} {casefold : String → String} {nodeId : String}
  {project : ProjectDocument}

section Constructors

variable {a : A}

theorem pure_applied {b : A} : (pure a : Applied A) = .ok b ↔ a = b := by
  simp [pure, Except.pure]

theorem accepted_ok {wrap : E → ValidationError} {result : Except E A} :
    accepted wrap result = .ok a ↔ result = .ok a := mapError_ok

/-- A value that is returned once its check has passed. -/
theorem checked_ok {check : Except E Unit} {b : A} :
    (check >>= fun _ => pure a) = .ok b ↔ check = .ok () ∧ b = a := by
  cases check with
  | error e => simp [bind, Except.bind]
  | ok u => simp [bind, Except.bind, pure, Except.pure, eq_comm]

theorem buildDocument_ok {result : GraphDocument} :
    buildDocument document = .ok result ↔ validateStructure document = .ok () ∧ result = document :=
  checked_ok.trans (and_congr_left' accepted_ok)

theorem buildPresentation_ok {result : GraphPresentationDocument} :
    buildPresentation presentation = .ok result ↔
      validatePresentation presentation = .ok () ∧ result = presentation :=
  checked_ok.trans (and_congr_left' accepted_ok)

theorem buildGraph_ok {result : GraphDefinition} :
    buildGraph graph = .ok result ↔ validateGraph graph = .ok () ∧ result = graph :=
  checked_ok.trans (and_congr_left' accepted_ok)

theorem rebuild_ok {graphs : List GraphDefinition} {result : ProjectDocument} :
    rebuild casefold graphs = .ok result ↔ checkProject casefold graphs = .ok () ∧
      result = ⟨graphs⟩ :=
  checked_ok.trans (and_congr_left' mapError_ok)

theorem nodeOrRaise_ok {node : GraphNode} :
    nodeOrRaise document nodeId = .ok node ↔
      document.nodes.find? (fun held => held.id = nodeId) = some node := by
  unfold nodeOrRaise
  cases document.nodes.find? (fun held => held.id = nodeId) <;> simp

theorem edgeOrRaise_ok {edgeId : String} {edge : GraphEdge} :
    edgeOrRaise document edgeId = .ok edge ↔
      document.edges.find? (fun held => held.id = edgeId) = some edge := by
  unfold edgeOrRaise
  cases document.edges.find? (fun held => held.id = edgeId) <;> simp

theorem originOrRaise_ok {originId : String} {origin : GraphOrigin} :
    originOrRaise document originId = .ok origin ↔
      document.origins.find? (fun held => held.id = originId) = some origin := by
  unfold originOrRaise
  cases document.origins.find? (fun held => held.id = originId) <;> simp

theorem graphOrRaise_ok {graphId : String} :
    graphOrRaise project graphId = .ok graph ↔ project.getGraph graphId = some graph := by
  unfold graphOrRaise
  cases project.getGraph graphId <;> simp

theorem pruneForRemovedNodes_ok {result : GraphPresentationDocument} {removed : List String}
    (h : pruneForRemovedNodes presentation removed = .ok result)
    (hrules : validatePresentation presentation = .ok ()) :
    validatePresentation result = .ok () ∧ result = { presentation with
      links := presentation.links.filter (fun link => link.sourceNodeId ∉ removed) } := by
  unfold pruneForRemovedNodes at h
  split_ifs at h with hempty
  · cases h
    refine ⟨hrules, ?_⟩
    subst hempty
    simp
  · obtain ⟨hrules, rfl⟩ := buildPresentation_ok.mp h
    exact ⟨hrules, rfl⟩

end Constructors

variable {change : GraphDefinition → GraphDefinition}

section Changes

variable {project result : ProjectDocument} {graphId : String}

/-- One Graph is exchanged, the others stay. -/
def changed (project : ProjectDocument) (graphId : String)
    (change : GraphDefinition → GraphDefinition) : ProjectDocument :=
  ⟨project.graphs.map (fun graph => if graph.id = graphId then change graph else graph)⟩

/-- The changed copy of the Graph keeps its rules, and the document with it those of a Project. -/
structure Built (casefold : String → String) (project : ProjectDocument) (graphId : String)
    (change : GraphDefinition → GraphDefinition) : Prop where
  graph : ∀ held ∈ project.graphs, held.id = graphId → validateGraph (change held) = .ok ()
  project : checkProject casefold (changed project graphId change).graphs = .ok ()

theorem changeGraph_ok :
    changeGraph casefold project graphId change = .ok result ↔
      Built casefold project graphId change ∧ result = changed project graphId change := by
  have hmap : ∀ graphs, project.graphs.mapM (fun graph =>
      if graph.id = graphId then buildGraph (change graph) else .ok graph) = .ok graphs ↔
        (∀ graph ∈ project.graphs, graph.id = graphId → validateGraph (change graph) = .ok ()) ∧
          graphs = (changed project graphId change).graphs := by
    intro graphs
    unfold changed
    generalize project.graphs = held
    induction held generalizing graphs with
    | nil => simp [pure, Except.pure, eq_comm]
    | cons graph rest ih =>
      rw [mapM_cons_ok]
      by_cases hid : graph.id = graphId
      · simp only [hid, if_true, buildGraph_ok, ih]
        constructor
        · rintro ⟨_, _, ⟨hrules, rfl⟩, ⟨hrest, rfl⟩, rfl⟩
          refine ⟨?_, by simp [hid]⟩
          intro other hother hsame
          rcases List.mem_cons.mp hother with rfl | hother
          · exact hrules
          · exact hrest other hother hsame
        · rintro ⟨hall, rfl⟩
          exact ⟨_, _, ⟨hall graph (List.mem_cons_self ..) hid, rfl⟩,
            ⟨fun other hother => hall other (List.mem_cons_of_mem _ hother), rfl⟩, by simp [hid]⟩
      · simp only [hid, if_false, Except.ok.injEq, ih]
        constructor
        · rintro ⟨_, _, rfl, ⟨hrest, rfl⟩, rfl⟩
          refine ⟨?_, by simp [hid]⟩
          intro other hother hsame
          rcases List.mem_cons.mp hother with rfl | hother
          · exact absurd hsame hid
          · exact hrest other hother hsame
        · rintro ⟨hall, rfl⟩
          exact ⟨_, _, rfl, ⟨fun other hother => hall other (List.mem_cons_of_mem _ hother), rfl⟩,
            by simp [hid]⟩
  simp only [changeGraph, bind_ok, hmap, rebuild_ok]
  constructor
  · rintro ⟨graphs, ⟨hall, rfl⟩, hrules, rfl⟩
    exact ⟨⟨hall, hrules⟩, rfl⟩
  · rintro ⟨⟨hall, hrules⟩, rfl⟩
    exact ⟨_, ⟨hall, rfl⟩, hrules, rfl⟩

theorem mem_changed (h : graph ∈ (changed project graphId change).graphs) :
    (graph ∈ project.graphs ∧ graph.id ≠ graphId) ∨
      ∃ held ∈ project.graphs, held.id = graphId ∧ graph = change held := by
  obtain ⟨held, hheld, rfl⟩ := List.mem_map.mp h
  by_cases hid : held.id = graphId
  · right
    exact ⟨held, hheld, hid, by simp [hid]⟩
  · left
    simp [hid, hheld]

/-- The new document of the exchanged Graph, with the generations it keeps. -/
def withDocument (document : GraphDocument) (graph : GraphDefinition) : GraphDefinition :=
  { graph with
    document := document
    refreshGenerations := graph.refreshGenerations.filter
      (fun entry => entry.1 ∈ nodeIds document) }

theorem withDocument_id (document : GraphDocument) (graph : GraphDefinition) :
    (withDocument document graph).id = graph.id := rfl

/-- A Graph whose node is at a new generation. -/
def refreshedTo (nodeId : String) (generation : ℕ) (graph : GraphDefinition) : GraphDefinition :=
  { graph with refreshGenerations := graph.refreshGenerations.set nodeId generation }

end Changes

section Heads

variable {destination : String → Option String} {graphId : String}

/-- The name of a Project and its document, as a command is applied to them. -/
abbrev Head := String × ProjectDocument

def nodeAt (project : ProjectDocument) (graphId nodeId : String) : Option GraphNode :=
  (project.getGraph graphId).bind (fun graph =>
    graph.document.nodes.find? (fun node => node.id = nodeId))

theorem find_map_same_id (idOf : A → String) (change : A → A) (id : String) (l : List A)
    (hchange : ∀ a, idOf a = id → idOf (change a) = id) :
    (l.map (fun a => if idOf a = id then change a else a)).find? (fun a => idOf a = id) =
      (l.find? (fun a => idOf a = id)).map change := by
  induction l with
  | nil => rfl
  | cons a rest ih =>
    by_cases ha : idOf a = id
    · simp [ha, hchange a ha]
    · simp [ha, ih]

theorem getGraph_changed (hgraph : project.getGraph graphId = some graph)
    (change : GraphDefinition → GraphDefinition) (hchange : ∀ held, (change held).id = held.id) :
    (changed project graphId change).getGraph graphId = some (change graph) := by
  unfold ProjectDocument.getGraph at hgraph ⊢
  rw [changed, find_map_same_id GraphDefinition.id change graphId project.graphs, hgraph]
  · rfl
  · exact fun held hheld => (hchange held).trans hheld

theorem getGraph_changed_ne {otherId : String} (hne : otherId ≠ graphId)
    (change : GraphDefinition → GraphDefinition) (hchange : ∀ held, (change held).id = held.id) :
    (changed project graphId change).getGraph otherId = project.getGraph otherId := by
  unfold ProjectDocument.getGraph changed
  simp only
  induction project.graphs with
  | nil => rfl
  | cons graph rest ih =>
    by_cases hgraph : graph.id = graphId
    · simp [hgraph, hchange, hne.symm, ih]
    · simp [hgraph, List.find?_cons, ih]

/-- What an accepted command was checked for, and the head it makes. -/
inductive ProjectStep (casefold : String → String) (destination : String → Option String)
    (name : String) (project : ProjectDocument) : ProjectCommand → Head → Prop
  | renameProject {newName : String} :
    ProjectStep casefold destination name project (.renameProject newName name) (newName, project)
  | addGraph {graphId graphName : String} {document : GraphDocument}
    (hnew : graphId ∉ project.graphs.map GraphDefinition.id)
    (hgraph : validateGraph ⟨graphId, graphName, document, []⟩ = .ok ())
    (hproject : checkProject casefold
      (project.graphs ++ [⟨graphId, graphName, document, []⟩]) = .ok ()) :
    ProjectStep casefold destination name project (.addGraph graphId graphName document)
      (name, ⟨project.graphs ++ [⟨graphId, graphName, document, []⟩]⟩)
  | renameGraph {graphId newName checked : String} {graph : GraphDefinition}
    (hgraph : project.getGraph graphId = some graph)
    (hchecked : checkedGraphName newName = .ok checked)
    (hbuilt : Built casefold project graphId (fun held => { held with name := checked })) :
    ProjectStep casefold destination name project (.renameGraph graphId newName graph.name)
      (name, changed project graphId (fun held => { held with name := checked }))
  | removeGraph {graphId : String}
    (hproject : checkProject casefold
      (project.graphs.filter (fun graph => graph.id ≠ graphId)) = .ok ()) :
    ProjectStep casefold destination name project (.removeGraph graphId)
      (name, ⟨project.graphs.filter (fun graph => graph.id ≠ graphId)⟩)
  | refreshNode {graphId nodeId : String} {graph : GraphDefinition} {node : GraphNode}
    (hgraph : project.getGraph graphId = some graph)
    (hnode : graph.document.nodes.find? (fun node => node.id = nodeId) = some node)
    (hcall : ¬ isCall node)
    (hbuilt : Built casefold project graphId (refreshedTo nodeId (generationOf graph nodeId + 1))) :
    ProjectStep casefold destination name project
      (.refreshNode graphId nodeId (generationOf graph nodeId))
      (name, changed project graphId (refreshedTo nodeId (generationOf graph nodeId + 1)))
  | addCallNode {graphId nodeId calleeGraphId : String} {position : GraphPoint}
    {graph : GraphDefinition} {document : GraphDocument}
    (hgraph : project.getGraph graphId = some graph)
    (hdocument : withNodes graph.document
      (graph.document.nodes ++ [callNode nodeId calleeGraphId position]) = .ok document)
    (hbuilt : Built casefold project graphId (withDocument document)) :
    ProjectStep casefold destination name project
      (.addCallNode graphId nodeId calleeGraphId position)
      (name, changed project graphId (withDocument document))
  | inGraph {graphId : String} {command : GraphCommand} {graph : GraphDefinition}
    {document : GraphDocument} (hgraph : project.getGraph graphId = some graph)
    (hdocument : applyGraphCommand destination graph.document command = .ok document)
    (hbuilt : Built casefold project graphId (withDocument document)) :
    ProjectStep casefold destination name project (.inGraph graphId command)
      (name, changed project graphId (withDocument document))

theorem applyProjectCommand_step {name : String} {next : Head} {command : ProjectCommand}
    (h : applyProjectCommand casefold destination name project command = .ok next) :
    ProjectStep casefold destination name project command next := by
  cases command <;>
    simp only [applyProjectCommand, Commands.removeGraph, replaceGraphDocument,
      setRefreshGeneration, bind_ok, require_ok, pure_applied, buildGraph_ok, rebuild_ok,
      graphOrRaise_ok, nodeOrRaise_ok, changeGraph_ok] at h
  case renameProject =>
    obtain ⟨_, rfl, rfl⟩ := h
    exact .renameProject
  case addGraph =>
    obtain ⟨_, hnew, _, ⟨hgraph, rfl⟩, _, ⟨hproject, rfl⟩, rfl⟩ := h
    exact .addGraph hnew hgraph hproject
  case renameGraph =>
    obtain ⟨graph, hgraph, _, rfl, checked, hchecked, _, ⟨hbuilt, rfl⟩, rfl⟩ := h
    exact .renameGraph hgraph hchecked hbuilt
  case removeGraph =>
    obtain ⟨_, ⟨_, -, _, -, hproject, rfl⟩, rfl⟩ := h
    exact .removeGraph hproject
  case refreshNode =>
    obtain ⟨graph, hgraph, node, hnode, _, hcall, _, rfl, _, ⟨hbuilt, rfl⟩, rfl⟩ := h
    exact .refreshNode hgraph hnode hcall hbuilt
  case addCallNode =>
    obtain ⟨graph, hgraph, _, -, _, -, document, hdocument, _, ⟨hbuilt, rfl⟩, rfl⟩ := h
    exact .addCallNode hgraph hdocument hbuilt
  case inGraph =>
    obtain ⟨graph, hgraph, document, hdocument, _, ⟨hbuilt, rfl⟩, rfl⟩ := h
    exact .inGraph hgraph hdocument hbuilt

/-- The Graph after a command in it: its new document and what generations it
keeps. -/
theorem inGraph_ok {head next : Head} {command : GraphCommand}
    (h : applyProjectCommand casefold destination head.1 head.2 (.inGraph graphId command) = .ok
      next) :
    ∃ graph document, head.2.getGraph graphId = some graph ∧
      applyGraphCommand destination graph.document command = .ok document ∧
      next.2.getGraph graphId = some (withDocument document graph) := by
  cases applyProjectCommand_step h with
  | inGraph hgraph hdocument hbuilt =>
    exact ⟨_, _, hgraph, hdocument, getGraph_changed hgraph _ (fun _ => rfl)⟩

end Heads

section Batches

variable {casefold : String → String} {destination : String → Option String}

/-- The documents a batch passes through, one command after the other. -/
inductive Applies (casefold : String → String) (destination : String → Option String) :
    List ProjectCommand → String × ProjectDocument → String × ProjectDocument → Prop
  | nil {state : String × ProjectDocument} : Applies casefold destination [] state state
  | cons {command : ProjectCommand} {rest : List ProjectCommand}
      {state next last : String × ProjectDocument} :
      applyProjectCommand casefold destination state.1 state.2 command = .ok next →
      Applies casefold destination rest next last →
      Applies casefold destination (command :: rest) state last

theorem applyProjectCommands_ok {name : String} {commands : List ProjectCommand}
    {last : String × ProjectDocument} :
    applyProjectCommands casefold destination name project commands = .ok last ↔
      commands ≠ [] ∧ Applies casefold destination commands (name, project) last := by
  have hfold : ∀ (commands : List ProjectCommand) (index : ℕ) (state : String × ProjectDocument),
      (commands.zipIdx index).foldlM (applyAt casefold destination) state = .ok last ↔
        Applies casefold destination commands state last := by
    intro commands
    induction commands with
    | nil =>
      intro index state
      constructor
      · intro h
        obtain rfl : state = last := by simpa [pure, Except.pure] using h
        exact .nil
      · intro h
        cases h
        rfl
    | cons command rest ih =>
      intro index state
      rw [List.zipIdx_cons, foldlM_cons_ok]
      constructor
      · rintro ⟨next, hnext, hrest⟩
        exact .cons (mapError_ok.mp hnext) ((ih _ _).mp hrest)
      · intro h
        cases h with
        | cons hnext hrest => exact ⟨_, mapError_ok.mpr hnext, (ih _ _).mpr hrest⟩
  unfold applyProjectCommands
  by_cases hempty : commands = []
  · simp [hempty]
  · simp [hempty, hfold]

end Batches

section Given

variable (destination : String → Option String)

/-- The values of a graph command are those their models returned. -/
def GraphCommand.Given : GraphCommand → Prop
  | .addAgent agent => ∃ value, readAgent destination value = .ok agent
  | .configureAgent agent => ∃ value, readAgent destination value = .ok agent
  | .addNode node => ∃ value, readNode value = .ok node
  | .duplicateNode _ node => ∃ value, readNode value = .ok node
  | .removeNodes nodeIds => nodeIds ≠ []
  | .moveNodes positions => positions ≠ [] ∧ ∀ move ∈ positions, move.x.isFinite ∧ move.y.isFinite
  | .updateNodeLayout _ layout _ => ∀ held ∈ layout, ∃ value, readLayout value = .ok held
  | .setNodeInputPlugs _ inputPlugs _ => ∀ plug ∈ inputPlugs, ∃ value, readPlug value = .ok plug
  | .updateNodeConfigurationAndInputPlugs _ _ inputPlugs _ _ =>
    ∀ plug ∈ inputPlugs, ∃ value, readPlug value = .ok plug
  | .setNodeArtifactTypeBinding _ binding _ => ∃ value, readBinding value = .ok binding
  | .addEdge edge => ∃ value, readEdge value = .ok edge
  | .updateEdge edge _ => ∃ value, readEdge value = .ok edge
  | .removeEdges edgeIds => edgeIds ≠ []
  | .addOrigin origin => ∃ value, readOrigin value = .ok origin
  | .updateOrigin origin _ => ∃ value, readOrigin value = .ok origin
  | .removeOrigins originIds => originIds ≠ []
  | .replaceDocument document => ∃ value, readDocument destination value = .ok document
  | .replacePresentation presentation => ∃ value, readPresentation value = .ok presentation
  | .moveArtifactViewers positions =>
    positions ≠ [] ∧ ∀ move ∈ positions, move.x.isFinite ∧ move.y.isFinite
  | .moveAnnotations positions =>
    positions ≠ [] ∧ ∀ move ∈ positions, move.x.isFinite ∧ move.y.isFinite
  | .removeAgent _ | .updateNodeConfiguration .. | .clearNodeArtifactTypeBinding .. => True

/-- The same for a project command. -/
def ProjectCommand.Given : ProjectCommand → Prop
  | .addGraph graphId name document => Identifier graphId ∧ TrimmedTo graphNameMaxLength name ∧
      ∃ value, readDocument destination value = .ok document
  | .addCallNode _ nodeId calleeGraphId position =>
    Identifier nodeId ∧ Identifier calleeGraphId ∧ PointOk position
  | .inGraph _ command => command.Given destination
  | .renameProject .. | .renameGraph .. | .removeGraph _ | .refreshNode .. => True

end Given

end Grafy.Commands
