import Grafy.ProjectReplay

/-!
The replay of graph commands, beside the server. The local command of an
accepted command does to the authored document what the command does to the
server's, except that an edge keeps its ends, an agent its place and a node the
wires of plugs it loses; generations are never dropped, and integers are
rounded to doubles. The two sides agree exactly when none of this makes a
difference.
-/
namespace Grafy.RoomBridge

open AuthoredGraphs Commands DocumentRules GraphDocuments Loops OrderedDict Project Reloading
  Validation

variable {document : GraphDocument} {presentation : GraphPresentationDocument}

section Documents

/-- The ends of an edge stay as they are in the replay. -/
def refitted (edge held : GraphEdge) : GraphEdge :=
  { edge with
    fromNode := held.fromNode, fromPort := held.fromPort
    toNode := held.toNode, toPort := held.toPort, toPlug := held.toPlug }

/-- What the replay makes of a document. -/
def replayedDocument (document : GraphDocument) : GraphCommand → GraphDocument
  | .configureAgent agent => { document with
      agents := document.agents.map (fun held => if held.id = agent.id then agent else held) }
  | .setNodeInputPlugs nodeId plugs ids => { document with
      nodes := editNode document nodeId (edited (.setNodeInputPlugs nodeId plugs ids)) }
  | .updateEdge edge _ => { document with
      edges := document.edges.map (fun held => if held.id = edge.id then refitted edge held
        else held) }
  | command => outcome document command

def replayedGraph (body : GraphCommand) (graph : GraphDefinition) : GraphDefinition :=
  { graph with document := replayedDocument graph.document body }

/-- The authored part of a document. -/
def authored (name : String) (document : GraphDocument) : AuthoredGraphDocument :=
  ⟨name, document.nodes, document.edges, document.origins, document.agents⟩

theorem authoredGraphDocument_eq (name : String) (document : GraphDocument) :
    authoredGraphDocument ⟨name, document⟩ = authored name document := by
  simp [authoredGraphDocument, authored]

theorem normalised_eq (name : String) (document : GraphDocument) :
    authoredGraphDocument (createGraphDraft (authored name document) none) =
      authored (trimmed name) document := by
  rw [authored_createGraphDraft]
  rfl

variable {name : String}

theorem createGraphDraft_authored
    (h : presentationForDocument presentation document.nodes = document.presentation) :
    (createGraphDraft (authored name document) (some presentation)).document = document := by
  simp [createGraphDraft, authored, h]

variable {nodeId : String} {node : GraphNode}

theorem nodeOrThrow_of_raise (h : nodeOrRaise document nodeId = .ok node) :
    nodeOrThrow (authored name document) nodeId = some node := nodeOrRaise_ok.mp h

theorem updateNode_found (update : GraphNode → GraphNode)
    (h : nodeOrRaise document nodeId = .ok node) :
    updateNode (authored name document) nodeId (fun held => some (update held)) =
      some (authored name { document with nodes := editNode document nodeId update }) := by
  rw [updateNode_some, nodeOrThrow_of_raise h]
  rfl

end Documents

variable {destination : String → Option String} {result : GraphDocument} {body : GraphCommand}

section LocalCommands

/-- The commands that are replayed through a local command. -/
def ThroughLocal : GraphCommand → Prop
  | .replaceDocument _ | .replacePresentation _ | .moveArtifactViewers _ | .moveAnnotations _ =>
    False
  | .setNodeInputPlugs .. => False
  | _ => True

theorem otherAgents_of_absent {agentId : String} (h : ¬ HasAgent document agentId) :
    otherAgents document agentId = document.agents := by
  unfold otherAgents
  rw [List.filter_eq_self]
  intro agent hagent
  have hne : agent.id ≠ agentId := fun heq => h (List.mem_map.mpr ⟨agent, hagent, heq⟩)
  simpa using hne

theorem find_of_mem {A : Type} {idOf : A → String} {l : List A} {id : String}
    (h : id ∈ l.map idOf) :
    ∃ a, l.find? (fun held => idOf held = id) = some a := by
  obtain ⟨a, ha, hid⟩ := List.mem_map.mp h
  rw [← Option.isSome_iff_exists, List.find?_isSome]
  exact ⟨a, ha, decide_eq_true hid⟩

theorem local_replays (name : String) (hthrough : ThroughLocal body)
    (h : Commands.applyGraphCommand destination document body = .ok result) :
    ∃ localCommand, (∀ base, toLocalBody base (parsedBody body) = some localCommand) ∧
      applyGraphCommandNormalized (authored name document) localCommand =
        some (authored name (replayedDocument document (parsedBody body))) := by
  cases body with
  | addAgent agent =>
    obtain ⟨_, habsent, -⟩ := bind_ok.mp h
    refine ⟨_, fun _ => rfl, ?_⟩
    simp only [applyGraphCommandNormalized, projectSavedGraphAgent_eq, parsedBody, replayedDocument,
      outcome, otherAgents_of_absent (require_ok.mp habsent)]
    exact if_neg (require_ok.mp habsent)
  | configureAgent agent =>
    obtain ⟨_, hheld, -⟩ := bind_ok.mp h
    obtain ⟨held, hfind⟩ := find_of_mem (require_ok.mp hheld)
    refine ⟨_, fun _ => rfl, ?_⟩
    simp only [applyGraphCommandNormalized, agentOrThrow, projectSavedGraphAgent_eq]
    show (document.agents.find? (fun held => held.id = agent.id)).bind _ = _
    rw [hfind]
    rfl
  | removeAgent agentId | removeNodes removed | removeEdges edgeIds | removeOrigins originIds =>
    exact ⟨_, fun _ => rfl, rfl⟩
  | addNode _ | addEdge _ | addOrigin _ =>
    obtain ⟨_, hnew, -⟩ := bind_ok.mp h
    refine ⟨_, fun _ => rfl, ?_⟩
    simp only [applyGraphCommandNormalized, projectSavedGraphNode_eq, projectSavedGraphEdge_eq,
      projectSavedGraphOrigin_eq]
    exact if_neg (require_ok.mp hnew)
  | duplicateNode source node =>
    obtain ⟨_, -, h⟩ := bind_ok.mp h
    obtain ⟨_, hnew, -⟩ := bind_ok.mp h
    refine ⟨_, fun _ => rfl, ?_⟩
    simp only [applyGraphCommandNormalized, projectSavedGraphNode_eq]
    exact if_neg (require_ok.mp hnew)
  | moveNodes positions =>
    obtain ⟨nodes, hnodes, -⟩ := bind_ok.mp h
    have hfound : positions.mapM (fun move => nodeOrThrow (authored name document) move.id) =
      some nodes :=
      mapM_some ((mapM_ok hnodes).imp (fun _ _ hnode => nodeOrThrow_of_raise hnode))
    have hpositions : positions.map (fun move => Move.mk move.id move.x move.y) = positions :=
      List.map_id positions
    refine ⟨.moveNodes positions, fun _ => by simp only [parsedBody, toLocalBody, hpositions], ?_⟩
    simp only [applyGraphCommandNormalized, hfound]
    rfl
  | updateNodeConfiguration nodeId field value expectedValue
  | setNodeArtifactTypeBinding nodeId binding expectedBinding
  | clearNodeArtifactTypeBinding nodeId typeVariable expectedBinding =>
    obtain ⟨node, hnode, -⟩ := bind_ok.mp h
    exact ⟨_, fun _ => rfl, updateNode_found _ hnode⟩
  | updateNodeLayout nodeId layout expectedLayout =>
    obtain ⟨node, hnode, -⟩ := bind_ok.mp h
    refine ⟨_, fun _ => rfl, ?_⟩
    simp only [applyGraphCommandNormalized, projectSavedGraphLayout_eq]
    exact updateNode_found _ hnode
  | updateNodeConfigurationAndInputPlugs nodeId config plugs expectedConfig ids =>
    obtain ⟨node, hnode, -⟩ := bind_ok.mp h
    refine ⟨_, fun _ => rfl, ?_⟩
    simp only [applyGraphCommandNormalized, map_projectSavedGraphInputPlug]
    rw [updateNode_found (fun held => { held with
      config := CanonicalJson.parsedJsonMembers config, inputPlugs := plugs }) hnode]
    rfl
  | updateEdge edge expectedEdge =>
    obtain ⟨current, hcurrent, -⟩ := bind_ok.mp h
    refine ⟨_, fun _ => rfl, ?_⟩
    simp only [applyGraphCommandNormalized, projectSavedGraphEdgeUpdate_eq, edgeOrThrow]
    show (document.edges.find? (fun held => held.id = edge.id)).bind _ = _
    rw [edgeOrRaise_ok.mp hcurrent]
    show some (authored name { document with edges := document.edges.map _ }) = _
    simp only [parsedBody, replayedDocument]
    congr 3
    apply List.map_congr_left
    intro held _
    split_ifs with hid
    · rw [updatedEdge, refitted, hid]
      rfl
    · rfl
  | updateOrigin origin expectedOrigin =>
    obtain ⟨current, hcurrent, -⟩ := bind_ok.mp h
    refine ⟨_, fun _ => rfl, ?_⟩
    simp only [applyGraphCommandNormalized, projectSavedGraphOriginUpdate_eq, originOrThrow]
    show (document.origins.find? (fun held => held.id = origin.id)).bind _ = _
    rw [originOrRaise_ok.mp hcurrent]
    show some (authored name { document with origins := document.origins.map _ }) = _
    simp only [parsedBody, replayedDocument, outcome]
    congr 3
    apply List.map_congr_left
    intro held _
    split_ifs with hid
    · rw [updatedOrigin, hid]
      rfl
    · rfl
  | _ => exact hthrough.elim

end LocalCommands

section Graphs

variable {graph : GraphDefinition}

theorem nodeIds_replayedDocument (document : GraphDocument) (body : GraphCommand) :
    nodeIds (replayedDocument document body) = nodeIds (outcome document body) := by
  cases body <;> rfl

theorem presentation_replayedDocument (document : GraphDocument) (body : GraphCommand) :
    (replayedDocument document body).presentation = (outcome document body).presentation := by
  cases body <;> rfl

/-- A presentation that names viewers and nodes of the document is kept whole. -/
theorem presentationForDocument_eq {nodes : List GraphNode} (hshown : Shown presentation)
    (hlinks : ∀ link ∈ presentation.links, link.sourceNodeId ∈ nodes.map GraphNode.id) :
    presentationForDocument presentation nodes = presentation := by
  have hkept : presentation.links.filter (fun link => link.sourceNodeId ∈ nodes.map GraphNode.id ∧
      link.targetViewerId ∈ presentation.viewers.map GraphPresentationViewer.id) =
        presentation.links := by
    rw [List.filter_eq_self]
    intro link hlink
    exact decide_eq_true ⟨hlinks link hlink, hshown.links link hlink⟩
  have hbound : presentation.bindings.filter (fun binding =>
      binding.sourceViewerId ∈ presentation.viewers.map GraphPresentationViewer.id ∧
        binding.targetViewerId ∈ presentation.viewers.map GraphPresentationViewer.id) =
      presentation.bindings := by
    rw [List.filter_eq_self]
    intro binding hbinding
    exact decide_eq_true (hshown.bindings binding hbinding)
  unfold presentationForDocument
  simp only [hkept, hbound]

/-- What a command through the local ones leaves of the presentation. -/
theorem keptPresentation_eq {base : AuthoredGraphDocument} (hthrough : ThroughLocal body)
    {localCommand : LocalCommand} (hlocal : toLocalBody base body = some localCommand) :
    keptPresentation document.presentation localCommand = (outcome document body).presentation := by
  cases body with
  | removeNodes removed =>
    cases hlocal
    show prunePresentationLinks document.presentation removed = _
    unfold prunePresentationLinks
    split_ifs with hempty
    · subst hempty
      simp [outcome]
    · rfl
  | setNodeInputPlugs nodeId plugs ids | replaceDocument replacement
  | replacePresentation presentation | moveArtifactViewers positions | moveAnnotations positions =>
    exact hthrough.elim
  | _ =>
    cases hlocal
    rfl

theorem shown_outcome (hshown : Shown document.presentation) (hthrough : ThroughLocal body) :
    Shown (outcome document body).presentation := by
  cases body with
  | removeNodes removed =>
    exact ⟨fun link hlink => hshown.links link (List.mem_filter.mp hlink).1, hshown.bindings⟩
  | replaceDocument replacement | replacePresentation presentation
  | moveArtifactViewers positions | moveAnnotations positions => exact hthrough.elim
  | _ => exact hshown

theorem links_outcome
    (hlinks : ∀ link ∈ document.presentation.links, link.sourceNodeId ∈ nodeIds document)
    (hthrough : ThroughLocal body) :
    ∀ link ∈ (outcome document body).presentation.links,
      link.sourceNodeId ∈ nodeIds (outcome document body) := by
  intro link hlink
  have hheld : link ∈ document.presentation.links ∧
      ∀ removed, body = .removeNodes removed → link.sourceNodeId ∉ removed := by
    cases body with
    | removeNodes removed =>
      obtain ⟨hold, hstays⟩ := List.mem_filter.mp hlink
      refine ⟨hold, ?_⟩
      rintro _ ⟨⟩
      simpa using hstays
    | replaceDocument replacement | replacePresentation presentation
    | moveArtifactViewers positions | moveAnnotations positions => exact hthrough.elim
    | _ => exact ⟨hlink, by simp⟩
  rcases RefreshHistory.mem_nodeIds_outcome body (hlinks link hheld.1) with
    hstill | ⟨removed, hbody, hremoved⟩ | hreplaced
  · exact hstill
  · exact absurd hremoved (hheld.2 removed hbody)
  · rw [hreplaced] at hthrough
    exact hthrough.elim

theorem replayInGraph_local {graphId : String} (hthrough : ThroughLocal body) :
    replayInGraph graphId body graph = replayLocally (.inGraph graphId body) graph := by
  cases body <;> first | rfl | exact hthrough.elim

theorem throughLocal_parsed : ThroughLocal (parsedBody body) ↔ ThroughLocal body := by
  cases body <;> exact Iff.rfl

/-- An accepted command, as the browser reads it, is replayed to the replayed
document. -/
theorem replayInGraph_eq (hok : DocumentOk destination graph.document)
    (h : Commands.applyGraphCommand destination graph.document body = .ok result) :
    replayInGraph graph.id (parsedBody body) graph =
      some (replayedGraph (parsedBody body) graph) := by
  by_cases hthrough : ThroughLocal body
  · obtain ⟨localCommand, hlocal, hnext⟩ := local_replays (trimmed graph.name) hthrough h
    rw [← throughLocal_parsed] at hthrough
    have happlied : AuthoredGraphs.applyGraphCommand
      (authored graph.name graph.document) localCommand =
        some (authored (trimmed graph.name) (replayedDocument graph.document
          (parsedBody body))) := by
      rw [AuthoredGraphs.applyGraphCommand, normalised_eq, hnext]
    have hkept : presentationForDocument (keptPresentation graph.document.presentation localCommand)
        (replayedDocument graph.document (parsedBody body)).nodes =
          (replayedDocument graph.document (parsedBody body)).presentation := by
      rw [keptPresentation_eq hthrough (hlocal (authored graph.name graph.document)),
        presentation_replayedDocument]
      refine presentationForDocument_eq
        (shown_outcome (validatePresentation_shown hok.presentation.rules) hthrough) ?_
      show ∀ link ∈ _, _ ∈ nodeIds (replayedDocument graph.document (parsedBody body))
      rw [nodeIds_replayedDocument]
      exact links_outcome (validateStructure_links hok.rules) hthrough
    rw [replayInGraph_local hthrough]
    simp only [replayLocally, toLocalGraphCommand, inGraphBody, if_true, Option.bind_some,
      authoredGraphDocument_eq, hlocal, happlied]
    show some (withGraphDocument graph (createGraphDraft _
      (some (keptPresentation graph.document.presentation localCommand))).document) = _
    rw [createGraphDraft_authored hkept]
    rfl
  · cases body with
    | setNodeInputPlugs nodeId plugs ids | replaceDocument replacement
    | replacePresentation presentation | moveArtifactViewers positions
    | moveAnnotations positions => rfl
    | _ => exact absurd trivial hthrough

end Graphs

section Agreement

/-- The two edges have the same ends. -/
def SameEnds (edge held : GraphEdge) : Prop :=
  edge.fromNode = held.fromNode ∧ edge.fromPort = held.fromPort ∧ edge.toNode = held.toNode ∧
    edge.toPort = held.toPort ∧ edge.toPlug = held.toPlug

/-- Every integer the command writes is a double. -/
def WritesDoubles : GraphCommand → Prop
  | .addNode node | .duplicateNode _ node => parsedNode node = node
  | .updateNodeConfiguration _ _ value _ => CanonicalJson.parsedJson value = value
  | .updateNodeConfigurationAndInputPlugs _ config _ _ _ =>
    CanonicalJson.parsedJsonMembers config = config
  | .setNodeArtifactTypeBinding _ binding _ => parsedBinding binding = binding
  | .addEdge edge | .updateEdge edge _ => parsedEdge edge = edge
  | .addOrigin origin | .updateOrigin origin _ => parsedOrigin origin = origin
  | .replaceDocument document => parsedDocument document = document
  | .replacePresentation presentation => parsedPresentation presentation = presentation
  | _ => True

/-- What the replay does otherwise makes no difference to the Graph. -/
def ReplayedExactly (graph : GraphDefinition) : GraphCommand → Prop
  | .removeNodes removed => ∀ nodeId ∈ removed, nodeId ∉ graph.refreshGenerations.keys
  | .replaceDocument document => ∀ nodeId ∈ graph.refreshGenerations.keys, nodeId ∈ nodeIds document
  | .setNodeInputPlugs nodeId plugs _ =>
    (∀ edge ∈ graph.document.edges, keepsPlug nodeId (plugIds plugs) edge.toNode edge.toPlug) ∧
      ∀ origin ∈ graph.document.origins, keepsPlug nodeId
        (plugIds plugs) origin.toNode origin.toPlug
  | .updateEdge edge _ => ∀ held ∈ graph.document.edges, held.id = edge.id → SameEnds edge held
  | .configureAgent agent => (graph.document.agents.map GraphAgent.id).getLast? = some agent.id
  | _ => True

variable {destination : String → Option String} {casefold : String → String}
  {document result : GraphDocument} {edge : GraphEdge} {nodeId : String} {retained : List String}
  {graph : GraphDefinition}

/-- What is expected beside what is written is not looked at. -/
theorem replayedDocument_parsed (h : WritesDoubles body) :
    replayedDocument document (parsedBody body) = replayedDocument document body := by
  cases body with
  | addNode written | duplicateNode _ written | addEdge written | updateEdge written _
  | addOrigin written | updateOrigin written _ | replaceDocument written
  | replacePresentation written =>
    simp only [WritesDoubles] at h
    simp only [parsedBody, h, replayedDocument, outcome]
  | updateNodeConfiguration _ _ written _ | updateNodeConfigurationAndInputPlugs _ written _ _ _
  | setNodeArtifactTypeBinding _ written _ =>
    simp only [WritesDoubles] at h
    simp only [parsedBody, h]
    rfl
  | _ => rfl

theorem change_eq_of_editNode {node : GraphNode} {change change' : GraphNode → GraphNode}
    (hnode : nodeOrRaise document nodeId = .ok node)
    (h : editNode document nodeId change = editNode document nodeId change') :
    change node = change' node := by
  have hfound := nodeOrRaise_ok.mp hnode
  have hid : node.id = nodeId := by simpa using List.find?_some hfound
  have hsame := List.map_inj_left.mp h node (List.mem_of_find?_eq_some hfound)
  rwa [if_pos hid, if_pos hid] at hsame

theorem exchanged_eq {A : Type} {idOf : A → String} {l : List A} {id : String}
    {change change' : A → A}
    {held : A} (hheld : l.find? (fun held => idOf held = id) = some held)
    (h : l.map (fun held => if idOf held = id then change held else held) =
      l.map (fun held => if idOf held = id then change' held else held)) :
    change held = change' held := by
  have hid : idOf held = id := by simpa using List.find?_some hheld
  have hsame := List.map_inj_left.mp h held (List.mem_of_find?_eq_some hheld)
  rwa [if_pos hid, if_pos hid] at hsame

/-- A command whose replay leaves what it leaves on the server has written
doubles only. -/
theorem writesDoubles_of_eq
    (haccepted : Commands.applyGraphCommand destination document body = .ok result)
    (h : replayedDocument document (parsedBody body) = outcome document body) :
      WritesDoubles body := by
  cases body with
  | addNode node | duplicateNode source node =>
    have hnodes : document.nodes ++ [parsedNode node] = document.nodes ++ [node] :=
      congrArg GraphDocument.nodes h
    exact List.singleton_injective (List.append_cancel_left hnodes)
  | addEdge edge =>
    have hedges : document.edges ++ [parsedEdge edge] = document.edges ++ [edge] :=
      congrArg GraphDocument.edges h
    exact List.singleton_injective (List.append_cancel_left hedges)
  | addOrigin origin =>
    have horigins : document.origins ++ [parsedOrigin origin] = document.origins ++ [origin] :=
      congrArg GraphDocument.origins h
    exact List.singleton_injective (List.append_cancel_left horigins)
  | updateNodeConfiguration nodeId field value expectedValue =>
    obtain ⟨node, hnode, -⟩ := bind_ok.mp haccepted
    have hconfig := congrArg GraphNode.config
      (change_eq_of_editNode hnode (congrArg GraphDocument.nodes h))
    have hvalue := congrArg (fun config => config.get? field) hconfig
    show CanonicalJson.parsedJson value = value
    simpa only [edited, Dict.get?_set, if_true, Option.some.injEq] using hvalue
  | updateNodeConfigurationAndInputPlugs nodeId config plugs expectedConfig ids =>
    obtain ⟨node, hnode, -⟩ := bind_ok.mp haccepted
    exact congrArg GraphNode.config (change_eq_of_editNode hnode (congrArg GraphDocument.nodes h))
  | setNodeArtifactTypeBinding nodeId binding expectedBinding =>
    obtain ⟨node, hnode, -⟩ := bind_ok.mp haccepted
    have hbindings := congrArg GraphNode.artifactTypeBindings
      (change_eq_of_editNode hnode (congrArg GraphDocument.nodes h))
    exact List.singleton_injective (List.append_cancel_left hbindings)
  | updateEdge edge expectedEdge =>
    obtain ⟨held, hheld, -⟩ := bind_ok.mp haccepted
    have hedge : refitted (parsedEdge edge) held = edge :=
      exchanged_eq (edgeOrRaise_ok.mp hheld) (congrArg GraphDocument.edges h)
    have hpath : edge.conversionPath.map parsedConversion = edge.conversionPath :=
      congrArg GraphEdge.conversionPath hedge
    show parsedEdge edge = edge
    rw [parsedEdge, hpath]
  | updateOrigin origin expectedOrigin =>
    obtain ⟨held, hheld, -⟩ := bind_ok.mp haccepted
    exact exchanged_eq (originOrRaise_ok.mp hheld) (congrArg GraphDocument.origins h)
  | replaceDocument replacement => exact h
  | replacePresentation presentation => exact congrArg GraphDocument.presentation h
  | _ => trivial

/-- An agent exchanged in its place is at the end when it was there before. -/
theorem exchanged_eq_moved_iff {agent : GraphAgent}
    (hids : (document.agents.map GraphAgent.id).Nodup) :
    document.agents.map (fun held => if held.id = agent.id then agent else held) =
        otherAgents document agent.id ++ [agent] ↔
      (document.agents.map GraphAgent.id).getLast? = some agent.id := by
  constructor
  · intro heq
    have hsame : (document.agents.map (fun held => if held.id = agent.id then agent else held)).map
        GraphAgent.id = document.agents.map GraphAgent.id := by
      rw [List.map_map]
      apply List.map_congr_left
      intro held _
      simp only [Function.comp_apply]
      split_ifs with hid
      · exact hid.symm
      · rfl
    rw [← hsame, heq, List.map_append, List.map_singleton, List.getLast?_concat]
  · intro hlast
    rw [List.getLast?_map, Option.map_eq_some_iff] at hlast
    obtain ⟨last, hlast, hid⟩ := hlast
    have hsplit : document.agents.dropLast ++ [last] = document.agents :=
      List.dropLast_append_getLast? last hlast
    have hothers : ∀ held ∈ document.agents.dropLast, held.id ≠ agent.id := by
      intro held hheld heq
      rw [← hsplit, List.map_append, List.nodup_append] at hids
      exact hids.2.2 held.id (List.mem_map_of_mem hheld) last.id (by simp) (heq.trans hid.symm)
    have hmoved : otherAgents document agent.id = document.agents.dropLast := by
      unfold otherAgents
      rw [← hsplit, List.filter_append, List.filter_eq_self.mpr (fun held hheld => by
        simpa using hothers held hheld), hsplit]
      simp [hid]
    rw [hmoved]
    conv_lhs => rw [← hsplit]
    rw [List.map_append, List.map_singleton, if_pos hid]
    congr 1
    conv_rhs => rw [← List.map_id document.agents.dropLast]
    apply List.map_congr_left
    intro held hheld
    exact if_neg (hothers held hheld)

theorem refitted_eq_iff {held : GraphEdge} : refitted edge held = edge ↔ SameEnds edge held := by
  obtain ⟨id, enabled, fromNode, fromPort, toNode, toPort, toPlug, mode, projection, path,
    offset⟩ := edge
  simp only [refitted, SameEnds, GraphEdge.mk.injEq, true_and, and_true]
  constructor
  · rintro ⟨h₁, h₂, h₃, h₄, h₅⟩
    exact ⟨h₁.symm, h₂.symm, h₃.symm, h₄.symm, h₅.symm⟩
  · rintro ⟨h₁, h₂, h₃, h₄, h₅⟩
    exact ⟨h₁.symm, h₂.symm, h₃.symm, h₄.symm, h₅.symm⟩

/-- The edges agree when the updated one keeps its ends. -/
theorem refitted_edges_eq_iff :
    document.edges.map (fun held => if held.id = edge.id then refitted edge held else held) =
        document.edges.map (fun held => if held.id = edge.id then edge else held) ↔
      ∀ held ∈ document.edges, held.id = edge.id → SameEnds edge held := by
  rw [List.map_inj_left]
  refine forall₂_congr (fun held _ => ?_)
  by_cases hid : held.id = edge.id
  · simp [hid, refitted_eq_iff]
  · simp [hid]

theorem survivingEdges_eq_iff :
    document.edges = survivingEdges document nodeId retained ↔
      ∀ edge ∈ document.edges, keepsPlug nodeId retained edge.toNode edge.toPlug := by
  rw [eq_comm, survivingEdges, List.filter_eq_self]
  exact forall₂_congr (fun _ _ => decide_eq_true_iff)

theorem survivingOrigins_eq_iff :
    document.origins = survivingOrigins document nodeId retained ↔
      ∀ origin ∈ document.origins, keepsPlug nodeId retained origin.toNode origin.toPlug := by
  rw [eq_comm, survivingOrigins, List.filter_eq_self]
  exact forall₂_congr (fun _ _ => decide_eq_true_iff)

theorem replayedDocument_eq_iff (hok : GraphOk destination graph) (body : GraphCommand) :
    (replayedDocument graph.document body = outcome graph.document body ∧
        ∀ nodeId ∈ graph.refreshGenerations.keys, nodeId ∈ nodeIds (outcome graph.document body)) ↔
      ReplayedExactly graph body := by
  have hkeys : ∀ nodeId ∈ graph.refreshGenerations.keys, nodeId ∈ nodeIds graph.document :=
    fun nodeId hkey => mem_nodeIds_of_key hok.rules hkey
  have hstays : (∀ removed, body ≠ .removeNodes removed) →
    (∀ replacement, body ≠ .replaceDocument replacement) →
      ∀ nodeId ∈ graph.refreshGenerations.keys, nodeId ∈ nodeIds (outcome graph.document body) := by
    intro hremoves hreplaces nodeId hkey
    rcases RefreshHistory.mem_nodeIds_outcome body (hkeys nodeId hkey) with
      hstill | ⟨removed, hbody, -⟩ | hreplaced
    · exact hstill
    · exact absurd hbody (hremoves removed)
    · exact absurd hreplaced (hreplaces _)
  have hstructured := validateStructure_ok.mp hok.document.rules
  cases body with
  | removeNodes removed =>
    refine (and_iff_right rfl).trans ?_
    constructor
    · intro hstays nodeId hremoved hkey
      obtain ⟨node, hnode, rfl⟩ := List.mem_map.mp (hstays nodeId hkey)
      have hout : node.id ∉ removed := by simpa using (List.mem_filter.mp hnode).2
      exact hout hremoved
    · intro hout nodeId hkey
      obtain ⟨node, hnode, rfl⟩ := List.mem_map.mp (hkeys nodeId hkey)
      have hkept : node.id ∉ removed := fun hremoved => hout node.id hremoved hkey
      exact List.mem_map_of_mem (List.mem_filter.mpr ⟨hnode, by simpa using hkept⟩)
  | replaceDocument replacement => exact and_iff_right rfl
  | setNodeInputPlugs nodeId plugs ids =>
    refine (and_iff_left (hstays (by simp) (by simp))).trans ?_
    simp only [replayedDocument, outcome, GraphDocument.mk.injEq, true_and, and_true]
    exact and_congr survivingEdges_eq_iff survivingOrigins_eq_iff
  | updateEdge edge expectedEdge =>
    refine (and_iff_left hkeys).trans (Iff.trans ?_ refitted_edges_eq_iff)
    simp [replayedDocument, outcome]
  | configureAgent agent =>
    refine (and_iff_left hkeys).trans (Iff.trans ?_ (exchanged_eq_moved_iff hstructured.agentIds))
    simp [replayedDocument, outcome]
  | _ =>
    exact iff_true_intro ⟨rfl, hstays (by simp) (by simp)⟩

/-- The Graph with its replayed document is the one the server has. -/
theorem replayedGraph_eq_iff (hok : GraphOk destination graph) (body : GraphCommand) :
    replayedGraph body graph = withDocument (outcome graph.document body) graph ↔
      ReplayedExactly graph body := by
  rw [← replayedDocument_eq_iff hok body]
  simp only [replayedGraph, withDocument, GraphDefinition.mk.injEq, true_and]
  refine and_congr_right (fun _ => ?_)
  rw [eq_comm, List.filter_eq_self]
  simp [Dict.keys]

variable {head : ProjectHead} {last : String × ProjectDocument}

/-- An accepted graph command is replayed in its Graph only, to what the server
has made of the Graph exactly when what the replay does otherwise makes no
difference there and every integer written is a double. -/
theorem graph_replay_agrees_iff (hok : ProjectOk destination casefold head.document)
    (hheld : parsedHead head = head) {graphId : String} {graph : GraphDefinition}
    (hgraph : head.document.getGraph graphId = some graph) {body : GraphCommand}
    (h : applyProjectCommand casefold destination head.name head.document (.inGraph graphId body) =
      .ok last) (sequence : ℕ) :
    (∃ replayed,
        applyRoomCommandToHead (parsedHead head) (parsedCommand (.inGraph graphId body)) sequence =
          some replayed ∧
        replayed.document.getGraph graphId = last.2.getGraph graphId ∧
        ∀ otherId, otherId ≠ graphId →
          replayed.document.getGraph otherId = head.document.getGraph otherId) ↔
      WritesDoubles body ∧ ReplayedExactly graph body := by
  obtain ⟨held, result, hfound, hresult, hlast⟩ :=
    @inGraph_ok casefold destination graphId (head.name, head.document) last body h
  obtain rfl : graph = held := Option.some.inj (hgraph.symm.trans hfound)
  obtain ⟨hmem, rfl⟩ := mem_graphs_of_getGraph hgraph
  have hgraphOk := hok.graphs graph hmem
  obtain rfl := applyGraphCommand_outcome hgraphOk.document hresult
  have hreplayed : applyRoomCommandToHead (parsedHead head) (parsedCommand (.inGraph graph.id body))
      sequence = some { head with
        document := changed head.document graph.id (replayedGraph (parsedBody body))
        collaborationSequence := sequence } := by
    rw [hheld]
    refine mapGraphDocument_eq (List.mem_map_of_mem hmem) ?_ sequence
    intro held hmem' hid
    obtain rfl : held = graph := List.inj_on_of_nodup_map hok.valid.wellFormed.ids hmem' hmem hid
    exact replayInGraph_eq hgraphOk.document hresult
  have hchanged :
    (changed head.document graph.id (replayedGraph (parsedBody body))).getGraph graph.id =
      some (replayedGraph (parsedBody body) graph) := getGraph_changed hgraph _ (fun _ => rfl)
  rw [← replayedGraph_eq_iff hgraphOk body]
  constructor
  · rintro ⟨replayed, happlied, hsame, -⟩
    cases hreplayed.symm.trans happlied
    have hequal := Option.some.inj (hchanged.symm.trans (hsame.trans hlast))
    have hwrites := writesDoubles_of_eq hresult (congrArg GraphDefinition.document hequal)
    refine ⟨hwrites, ?_⟩
    rwa [replayedGraph, replayedDocument_parsed hwrites] at hequal
  · rintro ⟨hwrites, hsame⟩
    refine ⟨_, hreplayed, ?_, ?_⟩
    · rw [hlast, ← hsame, hchanged, replayedGraph, replayedDocument_parsed hwrites]
      rfl
    · intro otherId hne
      exact getGraph_changed_ne hne (replayedGraph (parsedBody body)) (fun _ => rfl)

def limitedHead (config : Dict String CanonicalJson.Json) : ProjectHead :=
  ⟨"room", 4, "Draft", limitedProject config, 0, 0⟩

theorem parsedHead_limited (config : Dict String CanonicalJson.Json) :
    parsedHead (limitedHead config) = limitedHead (CanonicalJson.parsedJsonMembers config) := by
  have hversion : parsedNat 1 = 1 := parsedNat_of_lt (by norm_num)
  simp [parsedHead, limitedHead, limitedProject, limitedGraph, parsedGraph, parsedDocument,
    parsedNode, parsedPresentation, Dict.mapValues, hversion]

/-- An integer of 53 bits is written alike on both sides. -/
theorem double_replayed :
    let command := GraphCommand.updateNodeConfiguration "load" "limit" (.int 9007199254740991) .null
    ProjectOk knownDestination id (limitedHead []).document ∧
      parsedHead (limitedHead []) = limitedHead [] ∧
      applyProjectCommand id knownDestination "Draft" (limitedHead []).document
        (.inGraph "main" command) = .ok
          ("Draft", limitedProject [("limit", .int 9007199254740991)]) ∧
      ∃ replayed,
        applyRoomCommandToHead (parsedHead (limitedHead []))
          (parsedCommand (.inGraph "main" command))
          5 = some replayed ∧
        replayed.document.getGraph "main" =
          (limitedProject [("limit", .int 9007199254740991)]).getGraph "main" ∧
        ∀ otherId, otherId ≠ "main" →
          replayed.document.getGraph otherId = (limitedHead []).document.getGraph otherId := by
  have hok := limitedProject_ok []
  have hheld := parsedHead_limited []
  have haccepted := @setField_accepted [] "limit" rfl (.int 9007199254740991)
  have hgraph : (limitedHead []).document.getGraph "main" = some (limitedGraph []) := rfl
  refine ⟨hok, hheld, haccepted, (graph_replay_agrees_iff hok hheld hgraph haccepted 5).mpr
    ⟨?_, trivial⟩⟩
  show CanonicalJson.parsedJson _ = _
  rw [CanonicalJson.parsedJson, CanonicalJson.nearestDouble_of_lt (by norm_num)]
  rfl

def wire : GraphEdge := ⟨"e", true, "load", "out", "join", "in", some "p", .direct, none, [], none⟩

def wiredGraph (plugs : List GraphInputPlug) (edges : List GraphEdge) : GraphDefinition :=
  ⟨"main", "Main", ⟨[], [⟨.builtin, "load", "files.load", 1, [], default, none, [], []⟩,
    ⟨.builtin, "join", "text.join", 1, [], default, none, plugs, []⟩], edges, [], ⟨[], [], [], []⟩⟩,
      []⟩

def wiredHead (plugs : List GraphInputPlug) (edges : List GraphEdge) : ProjectHead :=
  ⟨"room", 4, "Draft", ⟨[wiredGraph plugs edges]⟩, 0, 0⟩

theorem wiredHead_ok : ProjectOk knownDestination id (wiredHead [⟨"p", "in"⟩] [wire]).document := by
  have hid : ∀ text ∈ ["main", "load", "files.load", "join", "text.join", "p", "in", "out", "e"],
      Identifier text := by
    unfold Identifier TrimmedTo
    decide
  have hname : TrimmedTo graphNameMaxLength "Main" := by
    unfold TrimmedTo
    decide
  refine ⟨?_, by decide⟩
  simp only [wiredHead, List.forall_mem_singleton]
  refine ⟨hid "main" (by simp), hname, ⟨by simp [wiredGraph], ?_, ?_, by simp [wiredGraph], ?_,
    by rfl⟩, by rfl⟩
  · simp only [wiredGraph, List.forall_mem_cons]
    refine ⟨⟨hid "load" (by simp), hid "files.load" (by simp), Nat.le_refl 1, ⟨rfl, rfl⟩, by simp,
      by simp, by simp, by simp⟩, ⟨hid "join" (by simp), hid "text.join" (by simp), Nat.le_refl 1,
      ⟨rfl, rfl⟩, by simp, ?_, by simp, by simp⟩, by simp⟩
    simp only [List.forall_mem_singleton]
    exact ⟨hid "p" (by simp), hid "in" (by simp)⟩
  · simp only [wiredGraph, List.forall_mem_singleton]
    exact ⟨hid "e" (by simp), hid "load" (by simp), hid "out" (by simp), hid "join" (by simp),
      hid "in" (by simp), by simpa [wire] using hid "p" (by simp), by simp [wire],
      ⟨by simp [wire], by simp [wire]⟩, by simp [wire]⟩
  · exact ⟨by simp [wiredGraph], by simp [wiredGraph], by simp [wiredGraph], by simp [wiredGraph],
      rfl⟩

theorem parsedHead_wired (plugs : List GraphInputPlug) :
    parsedHead (wiredHead plugs [wire]) = wiredHead plugs [wire] := by
  have hversion : parsedNat 1 = 1 := parsedNat_of_lt (by norm_num)
  simp [parsedHead, wiredHead, wiredGraph, wire, parsedGraph, parsedDocument, parsedNode,
    parsedEdge, parsedPresentation, CanonicalJson.parsedJsonMembers, Dict.mapValues, hversion]

/-- The server drops the edge to a plug that is taken away; the replayed head
keeps the edge, which then names no plug of its node. -/
theorem unplugged_edge_kept :
    let command := GraphCommand.setNodeInputPlugs "join" [] ["p"]
    ProjectOk knownDestination id (wiredHead [⟨"p", "in"⟩] [wire]).document ∧
      applyProjectCommand id knownDestination "Draft" (wiredHead [⟨"p", "in"⟩] [wire]).document
        (.inGraph "main" command) = .ok ("Draft", (wiredHead [] []).document) ∧
      applyRoomCommandToHead (parsedHead (wiredHead [⟨"p", "in"⟩] [wire]))
          (parsedCommand (.inGraph "main" command)) 5 =
        some { wiredHead [] [wire] with collaborationSequence := 5 } ∧
      (wiredHead [] [wire]).document.getGraph "main" ≠
        (wiredHead [] []).document.getGraph "main" := by
  refine ⟨wiredHead_ok, ?_, by rw [parsedHead_wired]; rfl, ?_⟩
  · refine bind_ok.mpr ⟨wiredGraph [⟨"p", "in"⟩] [wire], by rfl, bind_ok.mpr
      ⟨(wiredGraph [] []).document, by rfl,
        bind_ok.mpr ⟨_, changeGraph_ok.mpr ⟨⟨?_, ?_⟩, rfl⟩, by rfl⟩⟩⟩
    · simp only [wiredHead, List.forall_mem_singleton]
      decide
    · decide
  · intro hsame
    have hedges := congrArg (Option.map (fun graph => graph.document.edges.length)) hsame
    simp [wiredHead, wiredGraph, ProjectDocument.getGraph] at hedges

end Agreement

end Grafy.RoomBridge
