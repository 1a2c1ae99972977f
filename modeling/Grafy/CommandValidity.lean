import Grafy.CommandOutcomes

/-!
What accepted commands leave behind. Every command keeps the conditions that
validation puts on the fields of a document, and the constructors keep its
rules, so the document is valid after any batch.
-/
namespace Grafy.Commands

open CanonicalJson DocumentRules Dumps GraphDocuments Loops OrderedDict Project Reloading Texts
  Validation

variable {value : Json} {config : Dict String Json}

section Configurations

theorem freezableMembers_iff {entries : List (String × Json)} :
    freezableMembers entries = true ↔ ∀ entry ∈ entries, freezable entry.2 = true := by
  induction entries with
  | nil => simp [freezableMembers]
  | cons entry rest ih =>
    obtain ⟨key, value⟩ := entry
    simp [freezableMembers, ih]

theorem mem_set {entries : Dict String Json} {key : String} {entry : String × Json}
    (h : entry ∈ entries.set key value) : entry = (key, value) ∨ entry ∈ entries := by
  induction entries with
  | nil =>
    left
    simpa [Dict.set] using h
  | cons first rest ih =>
    obtain ⟨k, v⟩ := first
    unfold Dict.set at h
    split_ifs at h
    · rcases List.mem_cons.mp h with rfl | h
      · exact Or.inl rfl
      · exact Or.inr (List.mem_cons_of_mem _ h)
    · rcases List.mem_cons.mp h with rfl | h
      · exact Or.inr (List.mem_cons_self ..)
      · rcases ih h with rfl | h
        · exact Or.inl rfl
        · exact Or.inr (List.mem_cons_of_mem _ h)

theorem mem_set_self (entries : Dict String Json) (key : String) (value : Json) :
    (key, value) ∈ entries.set key value := by
  induction entries with
  | nil => simp [Dict.set]
  | cons first rest ih =>
    obtain ⟨k, v⟩ := first
    unfold Dict.set
    split_ifs
    · exact List.mem_cons_self ..
    · exact List.mem_cons_of_mem _ ih

/-- Only the value that is written decides whether the configuration stays
finite. -/
theorem freezable_set (h : freezable (.obj config)) (key : String) (value : Json) :
    freezable (.obj (config.set key value)) = true ↔ freezable value = true := by
  simp only [freezable, freezableMembers_iff] at h ⊢
  constructor
  · intro hall
    exact hall _ (mem_set_self config key value)
  · intro hvalue entry hentry
    rcases mem_set hentry with rfl | hold
    · exact hvalue
    · exact h entry hold

end Configurations

section Clean

/-- No number that is not finite and no endpoint that grows too long. -/
def GraphCommand.Clean : GraphCommand → Prop
  | .addAgent agent => EndpointFits agent
  | .configureAgent agent => EndpointFits agent
  | .updateNodeConfiguration _ _ value _ => freezable value
  | .updateNodeConfigurationAndInputPlugs _ config _ _ _ => freezable (.obj config)
  | .replaceDocument document => EndpointsFit document
  | _ => True

def ProjectCommand.Clean : ProjectCommand → Prop
  | .addGraph _ _ document => EndpointsFit document
  | .inGraph _ command => command.Clean
  | _ => True

end Clean

variable {document : GraphDocument} {nodeId : String} {change : GraphNode → GraphNode}
  {node : GraphNode} {Q : Prop}

section Edits

theorem forall_editNode {P : GraphNode → Prop} (h : ∀ node ∈ document.nodes, P node)
    (hchange : ∀ node ∈ document.nodes, P (change node)) :
    ∀ node ∈ editNode document nodeId change, P node := by
  intro node hnode
  obtain ⟨held, hheld, rfl⟩ := List.mem_map.mp hnode
  split_ifs
  · exact hchange held hheld
  · exact h held hheld

theorem mem_editNode (change : GraphNode → GraphNode)
    (h : document.nodes.find? (fun held => held.id = nodeId) = some node) :
    change node ∈ editNode document nodeId change := by
  have hid : node.id = nodeId := by simpa using List.find?_some h
  refine List.mem_map.mpr ⟨node, List.mem_of_find?_eq_some h, ?_⟩
  simp [hid]

theorem finite_editNode_iff (hfinite : FiniteNodes document)
    (hfind : document.nodes.find? (fun held => held.id = nodeId) = some node)
    (hchange : ∀ held ∈ document.nodes, Reloading.Finite (change held) ↔ Q) :
    (∀ held ∈ editNode document nodeId change, Reloading.Finite held) ↔ Q := by
  constructor
  · intro hall
    exact (hchange node (List.mem_of_find?_eq_some hfind)).mp (hall _ (mem_editNode change hfind))
  · intro hQ
    exact forall_editNode hfinite (fun held hheld => (hchange held hheld).mpr hQ)

theorem forall_exchanged {A : Type} {P : A → Prop} {l : List A} {new : A} (h : ∀ a ∈ l, P a)
    (hnew : P new) (replaces : A → Prop) [DecidablePred replaces] :
    ∀ a ∈ l.map (fun held => if replaces held then new else held), P a := by
  intro a ha
  obtain ⟨held, hheld, rfl⟩ := List.mem_map.mp ha
  split_ifs
  · exact hnew
  · exact h held hheld

theorem positionOf_ok {positions : List Move} {id : String} {point : GraphPoint}
    (h : ∀ move ∈ positions, move.x.isFinite ∧ move.y.isFinite)
    (hfound : positionOf positions id = some point) : PointOk point := by
  obtain ⟨move, hmove, rfl⟩ := Option.map_eq_some_iff.mp hfound
  exact h move (List.mem_reverse.mp (List.mem_of_find?_eq_some hmove))

end Edits

variable {destination : String → Option String} {agents : List GraphAgent}

section GraphCommands

variable {result : GraphDocument} {command : GraphCommand}

theorem bindings_append_ok (hnode : NodeOk node) {binding : GraphArtifactTypeBinding}
    (hbinding : BindingOk binding) :
    NodeOk { node with artifactTypeBindings :=
      node.artifactTypeBindings.filter (fun held => held.typeVariable ≠ binding.typeVariable) ++
        [binding] } := by
  refine { hnode with artifactTypeBindings := ?_, typeVariables := ?_ }
  · intro held hheld
    rcases mem_snoc.mp hheld with hold | rfl
    · exact hnode.artifactTypeBindings held (List.mem_filter.mp hold).1
    · exact hbinding
  · rw [List.map_append, List.nodup_append]
    refine ⟨?_, by simp, ?_⟩
    · exact hnode.typeVariables.sublist (List.filter_sublist.map _)
    · intro text htext other hother
      obtain ⟨held, hheld, rfl⟩ := List.mem_map.mp htext
      obtain rfl : other = binding.typeVariable := by simpa using hother
      simpa using (List.mem_filter.mp hheld).2

section

variable (hdestination : Normalising destination) (hok : DocumentOk destination document)
  (hgiven : command.Given destination)
include hdestination hok hgiven

/-! What a command leaves of each part of a valid document meets the conditions on that part. -/

theorem outcome_agentsOk :
    ∀ agent ∈ (outcome document command).agents, AgentOk destination agent := by
  have hothers : ∀ agentId, ∀ agent ∈ otherAgents document agentId, AgentOk destination agent :=
    fun _ agent hagent => hok.agents agent (List.mem_filter.mp hagent).1
  cases command with
  | addAgent agent | configureAgent agent =>
    obtain ⟨value, hread⟩ := hgiven
    exact List.forall_mem_append.mpr ⟨hothers agent.id,
      List.forall_mem_singleton.mpr (readAgent_ok hdestination hread)⟩
  | removeAgent agentId => exact hothers agentId
  | replaceDocument replacement =>
    obtain ⟨value, hread⟩ := hgiven
    exact (readDocument_ok hdestination hread).1.agents
  | _ => exact hok.agents

theorem outcome_nodesOk : ∀ node ∈ (outcome document command).nodes, NodeOk node := by
  cases command with
  | addNode node | duplicateNode source node =>
    obtain ⟨value, hread⟩ := hgiven
    exact List.forall_mem_append.mpr
      ⟨hok.nodes, List.forall_mem_singleton.mpr (readNode_ok hread).1⟩
  | removeNodes removed => exact fun node hnode => hok.nodes node (List.mem_filter.mp hnode).1
  | moveNodes positions =>
    intro node hnode
    obtain ⟨held, hheld, rfl⟩ := List.mem_map.mp hnode
    have hold := hok.nodes held hheld
    unfold movedNode
    cases hposition : positionOf positions held.id with
    | none => exact hold
    | some point => exact { hold with position := positionOf_ok hgiven.2 hposition }
  | updateNodeConfiguration nodeId field value expectedValue =>
    exact forall_editNode hok.nodes (fun node hnode => { hok.nodes node hnode with })
  | updateNodeLayout nodeId layout expectedLayout =>
    refine forall_editNode hok.nodes
      (fun node hnode => { hok.nodes node hnode with layout := ?_ })
    intro held hheld
    obtain ⟨value, hread⟩ := hgiven held hheld
    exact readLayout_ok hread
  | setNodeInputPlugs nodeId plugs ids
  | updateNodeConfigurationAndInputPlugs nodeId config plugs expectedConfig ids =>
    refine forall_editNode hok.nodes
      (fun node hnode => { hok.nodes node hnode with inputPlugs := ?_ })
    intro plug hplug
    obtain ⟨value, hread⟩ := hgiven plug hplug
    exact readPlug_ok hread
  | setNodeArtifactTypeBinding nodeId binding expectedBinding =>
    obtain ⟨value, hread⟩ := hgiven
    exact forall_editNode hok.nodes
      (fun node hnode => bindings_append_ok (hok.nodes node hnode) (readBinding_ok hread))
  | clearNodeArtifactTypeBinding nodeId typeVariable expectedBinding =>
    refine forall_editNode hok.nodes (fun node hnode => ?_)
    have hold := hok.nodes node hnode
    exact { hold with
      artifactTypeBindings := fun binding hbinding =>
        hold.artifactTypeBindings binding (List.mem_filter.mp hbinding).1
      typeVariables := hold.typeVariables.sublist (List.filter_sublist.map _) }
  | replaceDocument replacement =>
    obtain ⟨value, hread⟩ := hgiven
    exact (readDocument_ok hdestination hread).1.nodes
  | _ => exact hok.nodes

theorem outcome_edgesOk : ∀ edge ∈ (outcome document command).edges, EdgeOk edge := by
  cases command with
  | addEdge edge =>
    obtain ⟨value, hread⟩ := hgiven
    exact List.forall_mem_append.mpr ⟨hok.edges, List.forall_mem_singleton.mpr (readEdge_ok hread)⟩
  | updateEdge edge expectedEdge =>
    obtain ⟨value, hread⟩ := hgiven
    exact forall_exchanged hok.edges (readEdge_ok hread) _
  | removeEdges edgeIds | removeNodes removed | setNodeInputPlugs nodeId plugs ids
  | updateNodeConfigurationAndInputPlugs nodeId config plugs expectedConfig ids =>
    exact fun edge hedge => hok.edges edge (List.mem_filter.mp hedge).1
  | replaceDocument replacement =>
    obtain ⟨value, hread⟩ := hgiven
    exact (readDocument_ok hdestination hread).1.edges
  | _ => exact hok.edges

theorem outcome_originsOk : ∀ origin ∈ (outcome document command).origins, OriginOk origin := by
  cases command with
  | addOrigin origin =>
    obtain ⟨value, hread⟩ := hgiven
    exact List.forall_mem_append.mpr
      ⟨hok.origins, List.forall_mem_singleton.mpr (readOrigin_ok hread)⟩
  | updateOrigin origin expectedOrigin =>
    obtain ⟨value, hread⟩ := hgiven
    exact forall_exchanged hok.origins (readOrigin_ok hread) _
  | removeOrigins originIds | removeNodes removed | setNodeInputPlugs nodeId plugs ids
  | updateNodeConfigurationAndInputPlugs nodeId config plugs expectedConfig ids =>
    exact fun origin horigin => hok.origins origin (List.mem_filter.mp horigin).1
  | replaceDocument replacement =>
    obtain ⟨value, hread⟩ := hgiven
    exact (readDocument_ok hdestination hread).1.origins
  | _ => exact hok.origins

/-- The rules of the presentation are checked where a command changes it. -/
theorem outcome_presentationOk
    (h : applyGraphCommand destination document command = .ok result) :
    PresentationOk (outcome document command).presentation := by
  cases command with
  | removeNodes removed =>
    obtain ⟨presentation, hpresentation, h⟩ := bind_ok.mp h
    obtain ⟨hrules, rfl⟩ := pruneForRemovedNodes_ok hpresentation hok.presentation.rules
    exact { hok.presentation with
      links := fun link hlink => hok.presentation.links link (List.mem_filter.mp hlink).1
      rules := hrules }
  | moveArtifactViewers positions =>
    obtain ⟨_, -, h⟩ := bind_ok.mp h
    refine { hok.presentation with viewers := ?_, rules := (withPresentation_ok.mp h).1 }
    intro viewer hviewer
    obtain ⟨held, hheld, rfl⟩ := List.mem_map.mp hviewer
    have hold := hok.presentation.viewers held hheld
    unfold movedViewer
    cases hposition : positionOf positions held.id with
    | none => exact hold
    | some point => exact { hold with position := positionOf_ok hgiven.2 hposition }
  | moveAnnotations positions =>
    obtain ⟨_, -, h⟩ := bind_ok.mp h
    refine { hok.presentation with annotations := ?_, rules := (withPresentation_ok.mp h).1 }
    intro note hnote
    obtain ⟨held, hheld, rfl⟩ := List.mem_map.mp hnote
    have hold := hok.presentation.annotations held hheld
    unfold movedCard
    cases hposition : positionOf positions held.id with
    | none => exact hold
    | some point => exact { hold with position := positionOf_ok hgiven.2 hposition }
  | replacePresentation presentation =>
    obtain ⟨value, hread⟩ := hgiven
    exact readPresentation_ok hread
  | replaceDocument replacement =>
    obtain ⟨value, hread⟩ := hgiven
    exact (readDocument_ok hdestination hread).1.presentation
  | _ => exact hok.presentation

/-- Every command keeps the conditions on a document's fields and its rules. -/
theorem documentOk_apply (h : applyGraphCommand destination document command = .ok result) :
    DocumentOk destination result := by
  have hpresentation := outcome_presentationOk hdestination hok hgiven h
  obtain ⟨rfl, hrules⟩ := accepted_outcome hok h
  refine ⟨outcome_agentsOk hdestination hok hgiven, outcome_nodesOk hdestination hok hgiven,
    outcome_edgesOk hdestination hok hgiven, outcome_originsOk hdestination hok hgiven,
    hpresentation, ?_⟩
  cases command with
  | replaceDocument replacement =>
    obtain ⟨value, hread⟩ := hgiven
    exact (readDocument_ok hdestination hread).1.rules
  | _ => exact hrules nofun

end

section

variable (hstorable : Storable document)
include hstorable

theorem otherAgents_fit (agentId : String) :
    ∀ agent ∈ otherAgents document agentId, EndpointFits agent :=
  fun agent hagent => hstorable.2 agent (List.mem_filter.mp hagent).1

theorem agents_append_fit_iff (agentId : String) (agent : GraphAgent) :
    (∀ held ∈ otherAgents document agentId ++ [agent], EndpointFits held) ↔ EndpointFits agent := by
  constructor
  · intro hall
    exact hall agent (by simp)
  · intro hfits held hheld
    rcases mem_snoc.mp hheld with hold | rfl
    · exact otherAgents_fit hstorable agentId held hold
    · exact hfits

theorem finite_edited_iff {nodeId : String} {node : GraphNode} {Q : Prop}
    (hnode : nodeOrRaise document nodeId = .ok node) (change : GraphNode → GraphNode)
    (hchange : ∀ held ∈ document.nodes, Reloading.Finite (change held) ↔ Q) :
    (∀ held ∈ editNode document nodeId change, Reloading.Finite held) ∧ EndpointsFit document ↔
      Q := by
  have hfinite := finite_editNode_iff hstorable.1 (nodeOrRaise_ok.mp hnode) hchange
  exact (and_iff_left hstorable.2).trans hfinite

/-- From a storable document exactly the clean commands lead to one. -/
theorem storable_apply_iff (hdestination : Normalising destination)
    (hok : DocumentOk destination document) (hgiven : command.Given destination)
    (h : applyGraphCommand destination document command = .ok result) :
    Storable result ↔ command.Clean := by
  obtain rfl := applyGraphCommand_outcome hok h
  cases command with
  | addAgent agent | configureAgent agent =>
    exact (and_iff_right hstorable.1).trans (agents_append_fit_iff hstorable agent.id agent)
  | removeAgent agentId =>
    exact iff_of_true ⟨hstorable.1, otherAgents_fit hstorable agentId⟩ trivial
  | addNode node | duplicateNode source node =>
    obtain ⟨value, hread⟩ := hgiven
    refine iff_of_true ⟨?_, hstorable.2⟩ trivial
    exact List.forall_mem_append.mpr
      ⟨hstorable.1, List.forall_mem_singleton.mpr (readNode_ok hread).2⟩
  | removeNodes removed =>
    refine iff_of_true ⟨?_, hstorable.2⟩ trivial
    exact fun node hnode => hstorable.1 node (List.mem_filter.mp hnode).1
  | moveNodes positions =>
    refine iff_of_true ⟨?_, hstorable.2⟩ trivial
    intro node hnode
    obtain ⟨held, hheld, rfl⟩ := List.mem_map.mp hnode
    have hold := hstorable.1 held hheld
    unfold movedNode
    cases positionOf positions held.id with
    | none | some point => exact hold
  | updateNodeConfiguration nodeId field value expectedValue =>
    obtain ⟨node, hnode, -⟩ := bind_ok.mp h
    exact finite_edited_iff hstorable hnode _
      (fun held hheld => freezable_set (hstorable.1 held hheld) field value)
  | updateNodeConfigurationAndInputPlugs nodeId config inputPlugs expectedConfig expectedPlugIds =>
    obtain ⟨node, hnode, -⟩ := bind_ok.mp h
    exact finite_edited_iff hstorable hnode _ (fun _ _ => Iff.rfl)
  | updateNodeLayout nodeId layout expectedLayout
  | setNodeArtifactTypeBinding nodeId binding expectedBinding
  | clearNodeArtifactTypeBinding nodeId typeVariable expectedBinding
  | setNodeInputPlugs nodeId inputPlugs expectedPlugIds =>
    exact iff_of_true ⟨forall_editNode hstorable.1 hstorable.1, hstorable.2⟩ trivial
  | replaceDocument replacement =>
    obtain ⟨value, hread⟩ := hgiven
    exact and_iff_right (readDocument_ok hdestination hread).2
  | _ => exact iff_of_true hstorable trivial

end

end GraphCommands

section ProjectCommands

variable {casefold : String → String} {name : String} {project : ProjectDocument}
  {result : String × ProjectDocument} {graphId : String} {graph : GraphDefinition}
  {changed' : ProjectDocument} {command : ProjectCommand}

theorem mem_graphs_of_getGraph (h : project.getGraph graphId = some graph) :
    graph ∈ project.graphs ∧ graph.id = graphId :=
  ⟨List.mem_of_find?_eq_some h, by simpa using List.find?_some h⟩

/-- A Graph given a new document satisfies what the new document does. -/
theorem projectOk_changed (change : GraphDefinition → GraphDefinition)
    (hok : ProjectOk destination casefold project)
    (hchange : ∀ graph ∈ project.graphs, graph.id = graphId → GraphOk destination graph →
      validateGraph (change graph) = .ok () → GraphOk destination (change graph))
    (hbuilt : Built casefold project graphId change) :
    ProjectOk destination casefold (changed project graphId change) := by
  refine ⟨?_, hbuilt.project⟩
  intro graph hgraph
  rcases mem_changed hgraph with ⟨hold, -⟩ | ⟨held, hheld, hid, rfl⟩
  · exact hok.graphs graph hold
  · exact hchange held hheld hid (hok.graphs held hheld) (hbuilt.graph held hheld hid)

theorem projectOk_replaceDocument (hok : ProjectOk destination casefold project)
    (hdocument : DocumentOk destination document)
    (hbuilt : Built casefold project graphId (withDocument document)) :
    ProjectOk destination casefold (changed project graphId (withDocument document)) :=
  projectOk_changed (withDocument document) hok
    (fun _ _ _ hgraph hrules => ⟨hgraph.id, hgraph.name, hdocument, hrules⟩) hbuilt

theorem callNode_ok {calleeGraphId : String} {position : GraphPoint} (hnode : Identifier nodeId)
    (hcallee : Identifier calleeGraphId) (hposition : PointOk position) :
    NodeOk (callNode nodeId calleeGraphId position) :=
  ⟨hnode, hcallee, Nat.le_refl 1, hposition, by simp [callNode], by simp [callNode],
    by simp [callNode], by simp [callNode]⟩

theorem checkedGraphName_ok {text checked : String} (h : checkedGraphName text = .ok checked) :
    TrimmedTo graphNameMaxLength checked := by
  simp only [checkedGraphName, bind_ok, require_ok, pure_applied] at h
  obtain ⟨_, ⟨hblank, hlength⟩, rfl⟩ := h
  refine ⟨trim_strip text, ?_, hlength⟩
  by_contra hzero
  have hlength' : (strip text).length = 0 := by omega
  exact hblank (String.length_eq_zero_iff.mp hlength')

theorem projectOk_apply (hdestination : Normalising destination)
    (hok : ProjectOk destination casefold project) (hgiven : command.Given destination)
    (h : applyProjectCommand casefold destination name project command = .ok result) :
    ProjectOk destination casefold result.2 := by
  cases applyProjectCommand_step h with
  | renameProject => exact hok
  | addGraph _ hgraph hproject =>
    obtain ⟨hid, hname, value, hread⟩ := hgiven
    refine ⟨?_, hproject⟩
    exact List.forall_mem_append.mpr
      ⟨hok.graphs, List.forall_mem_singleton.mpr ⟨hid, hname,
        (readDocument_ok hdestination hread).1, hgraph⟩⟩
  | renameGraph _ hchecked hbuilt =>
    exact projectOk_changed _ hok
      (fun _ _ _ hgraph hrules =>
        ⟨hgraph.id, checkedGraphName_ok hchecked, hgraph.document, hrules⟩) hbuilt
  | removeGraph hproject =>
    exact ⟨fun graph hgraph => hok.graphs graph (List.mem_filter.mp hgraph).1, hproject⟩
  | refreshNode _ _ _ hbuilt =>
    exact projectOk_changed _ hok
      (fun _ _ _ hgraph hrules => ⟨hgraph.id, hgraph.name, hgraph.document, hrules⟩) hbuilt
  | addCallNode hgraph hdocument hbuilt =>
    obtain ⟨hid, hcallee, hposition⟩ := hgiven
    have hold := (hok.graphs _ (mem_graphs_of_getGraph hgraph).1).document
    obtain ⟨hrules, rfl⟩ := buildDocument_ok.mp hdocument
    refine projectOk_replaceDocument hok { hold with nodes := ?_, rules := hrules } hbuilt
    exact List.forall_mem_append.mpr
      ⟨hold.nodes, List.forall_mem_singleton.mpr (callNode_ok hid hcallee hposition)⟩
  | inGraph hgraph hdocument hbuilt =>
    have hold := (hok.graphs _ (mem_graphs_of_getGraph hgraph).1).document
    exact projectOk_replaceDocument hok (documentOk_apply hdestination hold hgiven hdocument) hbuilt

def StorableProject (project : ProjectDocument) : Prop :=
  ∀ graph ∈ project.graphs, Storable graph.document

theorem storable_replace_iff (hstorable : StorableProject project)
    (hgraph : project.getGraph graphId = some graph) :
    StorableProject (changed project graphId (withDocument document)) ↔ Storable document := by
  obtain ⟨hmem, hid⟩ := mem_graphs_of_getGraph hgraph
  constructor
  · intro hall
    refine hall (withDocument document graph) (List.mem_map.mpr ⟨graph, hmem, ?_⟩)
    simp [hid]
  · intro hdocument held hheld
    rcases mem_changed hheld with ⟨hold, -⟩ | ⟨old, -, -, rfl⟩
    · exact hstorable held hold
    · exact hdocument

theorem storable_sameDocuments (change : GraphDefinition → GraphDefinition)
    (hstorable : StorableProject project)
    (hchange : ∀ graph, (change graph).document = graph.document) :
    StorableProject (changed project graphId change) := by
  intro graph hgraph
  rcases mem_changed hgraph with ⟨hold, -⟩ | ⟨held, hheld, -, rfl⟩
  · exact hstorable graph hold
  · rw [hchange]
    exact hstorable held hheld

theorem storableProject_apply_iff (hdestination : Normalising destination)
    (hok : ProjectOk destination casefold project) (hstorable : StorableProject project)
    (hgiven : command.Given destination)
    (h : applyProjectCommand casefold destination name project command = .ok result) :
    StorableProject result.2 ↔ command.Clean := by
  cases applyProjectCommand_step h with
  | renameProject => exact iff_of_true hstorable trivial
  | addGraph =>
    obtain ⟨-, -, value, hread⟩ := hgiven
    constructor
    · intro hall
      exact (hall _ (List.mem_append_right _ (List.mem_singleton_self _))).2
    · intro hfits graph hgraph
      rcases mem_snoc.mp hgraph with hold | rfl
      · exact hstorable graph hold
      · exact ⟨(readDocument_ok hdestination hread).2, hfits⟩
  | renameGraph | refreshNode =>
    exact iff_of_true (storable_sameDocuments _ hstorable (fun _ => rfl)) trivial
  | removeGraph =>
    refine iff_of_true ?_ trivial
    exact fun graph hgraph => hstorable graph (List.mem_filter.mp hgraph).1
  | addCallNode hgraph hdocument =>
    have hold := hstorable _ (mem_graphs_of_getGraph hgraph).1
    obtain ⟨-, rfl⟩ := buildDocument_ok.mp hdocument
    refine iff_of_true ((storable_replace_iff hstorable hgraph).mpr ⟨?_, hold.2⟩) trivial
    intro node hnode
    rcases mem_snoc.mp hnode with hnode | rfl
    · exact hold.1 node hnode
    · rfl
  | inGraph hgraph hdocument =>
    obtain ⟨hmem, -⟩ := mem_graphs_of_getGraph hgraph
    exact (storable_replace_iff hstorable hgraph).trans (storable_apply_iff (hstorable _ hmem)
      hdestination (hok.graphs _ hmem).document hgiven hdocument)

end ProjectCommands

section Agents

variable {rejection : Rejection}

/-- The commands that validate the whole document again. -/
def GraphCommand.editsAgents : GraphCommand → Bool
  | .addAgent _ | .configureAgent _ | .removeAgent _ => true
  | _ => false

theorem validateStructure_withAgents (h : validateStructure document = .ok ())
    (hagents : (agents.map GraphAgent.id).Nodup) :
    validateStructure { document with agents := agents } = .ok () := by
  exact validateStructure_ok.mpr { validateStructure_ok.mp h with agentIds := hagents }

section

variable (hok : DocumentOk destination document)
include hok

theorem withAgents_accepts (hfinite : FiniteNodes document)
    (hagents : (agents.map GraphAgent.id).Nodup) :
    withAgents destination document agents = .ok { document with agents := agents } :=
  mapError_ok.mpr ((readDocumentWith_dump_iff hok).mpr
    ⟨agents, rfl, hfinite, validateStructure_withAgents hok.rules hagents, rfl⟩)

theorem otherAgents_nodup (agentId : String) :
    ((otherAgents document agentId).map GraphAgent.id).Nodup := by
  exact (validateStructure_ok.mp hok.rules).agentIds.sublist (List.filter_sublist.map _)

theorem agents_append_nodup (agent : GraphAgent) :
    ((otherAgents document agent.id ++ [agent]).map GraphAgent.id).Nodup := by
  rw [List.map_append, List.nodup_append]
  refine ⟨otherAgents_nodup hok agent.id, by simp, ?_⟩
  intro text htext other hother
  obtain ⟨held, hheld, rfl⟩ := List.mem_map.mp htext
  obtain rfl : other = agent.id := by simpa using hother
  simpa using (List.mem_filter.mp hheld).2

theorem withAgents_not_rejected (hfinite : FiniteNodes document)
    (hagents : (agents.map GraphAgent.id).Nodup)
    (h : withAgents destination document agents = .error rejection) : False := by
  rw [withAgents_accepts hok hfinite hagents] at h
  cases h

/-- On a document without such a number the agent commands are rejected only
for the agent they name. -/
theorem editsAgents_rejection (hfinite : FiniteNodes document) {command : GraphCommand}
    (hagents : command.editsAgents)
    (h : applyGraphCommand destination document command = .error rejection) :
    rejection.code ≠ "invalid_document" := by
  cases command with
  | addAgent agent | configureAgent agent =>
    rcases bind_error.mp h with hrequired | ⟨_, -, hread⟩
    · obtain ⟨-, rfl⟩ := require_error.mp hrequired
      simp [Rejection.code]
    · exact (withAgents_not_rejected hok hfinite (agents_append_nodup hok agent) hread).elim
  | removeAgent agentId =>
    rcases bind_error.mp h with hrequired | ⟨_, -, hread⟩
    · obtain ⟨-, rfl⟩ := require_error.mp hrequired
      simp [Rejection.code]
    · exact (withAgents_not_rejected hok hfinite (otherAgents_nodup hok agentId) hread).elim
  | _ => simp [GraphCommand.editsAgents] at hagents

end

end Agents

section Batches

variable {destination : String → Option String} {casefold : String → String}
  {commands : List ProjectCommand} {last state : String × ProjectDocument}

theorem Applies.projectOk (hdestination : Normalising destination)
    (h : Applies casefold destination commands state last)
    (hok : ProjectOk destination casefold state.2)
    (hgiven : ∀ command ∈ commands, command.Given destination) :
    ProjectOk destination casefold last.2 := by
  induction h with
  | nil => exact hok
  | cons hstep _ ih =>
    obtain ⟨hcommand, hrest⟩ := List.forall_mem_cons.mp hgiven
    exact ih (projectOk_apply hdestination hok hcommand hstep) hrest

theorem Applies.cons_iff {command : ProjectCommand} {rest : List ProjectCommand} :
    Applies casefold destination (command :: rest) state last ↔ ∃ next,
      applyProjectCommand casefold destination state.1 state.2 command = .ok next ∧
        Applies casefold destination rest next last := by
  constructor
  · intro h
    cases h with
    | cons hstep hrest => exact ⟨_, hstep, hrest⟩
  · rintro ⟨next, hstep, hrest⟩
    exact .cons hstep hrest

end Batches

section Limits

def limitedGraph (config : Dict String Json) : GraphDefinition :=
  ⟨"main", "Main", ⟨[], [⟨.builtin, "load", "files.load", 1, config, default, none, [], []⟩], [],
    [], ⟨[], [], [], []⟩⟩, []⟩

def limitedProject (config : Dict String Json) : ProjectDocument := ⟨[limitedGraph config]⟩

/-- One address, already in its normal form. -/
def knownDestination (text : String) : Option String :=
  if text = "https://models.local/v1" then some text else none

theorem knownDestination_normalising : Normalising knownDestination := by
  constructor
  · intro text url h
    simp only [knownDestination, Option.ite_none_right_eq_some, Option.some.injEq] at h
    obtain ⟨rfl, rfl⟩ := h
    rfl
  · intro text url h
    simp only [knownDestination, Option.ite_none_right_eq_some, Option.some.injEq] at h
    obtain ⟨rfl, rfl⟩ := h
    decide

theorem limitedGraph_rules (config : Dict String Json) :
    validateStructure (limitedGraph config).document = .ok () ∧
      validateGraph (limitedGraph config) = .ok () := by
  constructor
  · rfl
  · rfl

theorem limitedProject_ok (config : Dict String Json) :
    ProjectOk knownDestination id (limitedProject config) := by
  refine ⟨?_, by rfl⟩
  simp only [limitedProject, List.forall_mem_singleton]
  obtain ⟨hstructure, hgraph⟩ := limitedGraph_rules config
  have hid : ∀ text ∈ ["main", "load", "files.load"], Identifier text := by
    unfold Identifier TrimmedTo
    decide
  have hname : TrimmedTo graphNameMaxLength "Main" := by
    unfold TrimmedTo
    decide
  refine ⟨hid "main" (by simp), hname, ⟨by simp [limitedGraph], ?_, by simp [limitedGraph],
    by simp [limitedGraph], ?_, hstructure⟩, hgraph⟩
  · simp only [limitedGraph, List.forall_mem_singleton]
    exact ⟨hid "load" (by simp), hid "files.load" (by simp), Nat.le_refl 1, ⟨rfl, rfl⟩, by simp,
      by simp, by simp, by simp⟩
  · exact ⟨by simp [limitedGraph], by simp [limitedGraph], by simp [limitedGraph],
      by simp [limitedGraph], rfl⟩

theorem setField_accepted {field : String} (hfield : (config.get? field).getD .null = .null)
    (value : Json) :
    applyProjectCommand id knownDestination "Draft" (limitedProject config)
        (.inGraph "main" (.updateNodeConfiguration "load" field value .null)) =
      .ok ("Draft", limitedProject (config.set field value)) := by
  obtain ⟨hstructure, hgraph⟩ := limitedGraph_rules (config.set field value)
  refine bind_ok.mpr ⟨limitedGraph config, by rfl, bind_ok.mpr
    ⟨(limitedGraph (config.set field value)).document, ?_, bind_ok.mpr
      ⟨_, changeGraph_ok.mpr ⟨⟨?_, by rfl⟩, rfl⟩, rfl⟩⟩⟩
  · refine bind_ok.mpr ⟨⟨.builtin, "load", "files.load", 1, config, default, none, [], []⟩, by rfl,
      bind_ok.mpr ⟨(), require_ok.mpr (decide_eq_true ?_), ?_⟩⟩
    · rw [hfield]
    · exact buildDocument_ok.mpr ⟨hstructure, rfl⟩
  · simp only [limitedProject, List.forall_mem_singleton]
    exact fun _ => hgraph

end Limits

end Grafy.Commands
