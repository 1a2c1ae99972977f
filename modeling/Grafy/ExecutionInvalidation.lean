import Grafy.PlugReordering
import Grafy.Traversal

/-!
Which nodes a local command invalidates. The set is computed on the document
before the command: the nodes reached over enabled edges from those the command
touches. It covers every node whose own content or that of a node upstream
changes, unless the command moves an origin to a node that is not reached from
the one it leaves.
-/
namespace Grafy.AuthoredGraphs

open Commands GraphDocuments OrderedDict Relation

section Scope

variable (document : AuthoredGraphDocument)

def knownNodeIds : List String := document.nodes.map GraphNode.id

/-- The targets of a node's enabled edges; a node without an id is passed over. -/
def enabledTargets (source : String) : List String :=
  if source = "" then []
  else
    (document.edges.filter (fun edge => edge.enabled ∧ edge.fromNode = source ∧
      edge.toNode ∈ knownNodeIds document)).map GraphEdge.toNode

theorem enabledTargets_known (source : String) :
    ∀ target ∈ enabledTargets document source, target ∈ knownNodeIds document := by
  intro target htarget
  unfold enabledTargets at htarget
  split_ifs at htarget
  · cases htarget
  · obtain ⟨edge, hedge, rfl⟩ := List.mem_map.mp htarget
    exact (of_decide_eq_true (List.mem_filter.mp hedge).2).2.2

def executionDescendants (roots : List String) : List String :=
  let state := (roots.filter (fun id => id ∈ knownNodeIds document)).foldl Traversal.mark ([], [])
  Traversal.flood (enabledTargets_known document) state.1 state.2

/-- Only the route of the edge is updated. -/
def EdgeUpdate.routeOnly (update : EdgeUpdate) : Prop :=
  update.collectionMode = none ∧ update.enabled = none ∧ update.projection = none ∧
    update.conversionPath = none ∧ update.toPlug = none ∧ update.fromPort = none ∧
    update.toPort = none

instance (update : EdgeUpdate) : Decidable update.routeOnly :=
  inferInstanceAs (Decidable (_ ∧ _ ∧ _ ∧ _ ∧ _ ∧ _ ∧ _))

/-- The runtime execution scope affected by one command. -/
def executionInvalidatedNodeIds : LocalCommand → List String
  | .updateNodeConfiguration nodeId _ _ => executionDescendants document [nodeId]
  | .updateNodeConfigurationAndInputPlugs nodeId _ _ => executionDescendants document [nodeId]
  | .addInputPlug nodeId _ => executionDescendants document [nodeId]
  | .removeInputPlug nodeId _ => executionDescendants document [nodeId]
  | .reorderInputPlug nodeId _ _ _ => executionDescendants document [nodeId]
  | .bindArtifactType nodeId _ _ => executionDescendants document [nodeId]
  | .resetArtifactTypeBinding nodeId _ => executionDescendants document [nodeId]
  | .addEdge edge => executionDescendants document [edge.toNode]
  | .updateEdge edgeId update =>
    if update.routeOnly then []
    else
      match edgeOrThrow document edgeId with
      | some edge => executionDescendants document [edge.toNode]
      | none => []
  | .removeEdges edgeIds => executionDescendants document
      ((document.edges.filter (fun edge => edge.id ∈ edgeIds)).map GraphEdge.toNode)
  | .addOrigin origin => executionDescendants document [origin.toNode]
  | .updateOrigin originId _ =>
    match originOrThrow document originId with
    | some origin => executionDescendants document [origin.toNode]
    | none => []
  | .removeOrigins originIds => executionDescendants document
      ((document.origins.filter (fun origin => origin.id ∈ originIds)).map GraphOrigin.toNode)
  | .removeNodes nodeIds => executionDescendants document
      ((document.edges.filter (fun edge => edge.fromNode ∈ nodeIds)).map GraphEdge.toNode ++
        (document.origins.filter (fun origin => origin.toNode ∈ nodeIds)).map GraphOrigin.toNode)
  | .renameGraph _ => []
  | .addNode _ => []
  | .moveNodes _ => []
  | .updateNodeLayout _ _ => []
  | .addAgent _ => []
  | .configureAgent _ => []
  | .removeAgent _ => []
  | .replaceDocument _ => knownNodeIds document

end Scope

section Content

variable (document : AuthoredGraphDocument)

/-- What an execution of a node depends on in the document, but for the nodes upstream. -/
structure ExecutionContent where
  kind : GraphNodeKind
  operatorId : String
  operatorVersion : ℕ
  config : Dict String CanonicalJson.Json
  inputPlugs : List GraphInputPlug
  artifactTypeBindings : List GraphArtifactTypeBinding
  incoming : List GraphEdge
  origins : List GraphOrigin

/-- The enabled edges to a node, without their routes. -/
def incomingEdges (id : String) : List GraphEdge :=
  (document.edges.filter (fun edge => edge.toNode = id ∧ edge.enabled)).map
    (fun edge => { edge with routeOffset := none })

def originsAt (id : String) : List GraphOrigin :=
  document.origins.filter (fun origin => origin.toNode = id)

def contentOf (incoming : List GraphEdge) (origins : List GraphOrigin) (node : GraphNode) :
    ExecutionContent where
  kind := node.kind
  operatorId := node.operatorId
  operatorVersion := node.operatorVersion
  config := node.config
  inputPlugs := node.inputPlugs
  artifactTypeBindings := node.artifactTypeBindings
  incoming := incoming
  origins := origins

/-- The content of the node, if there is one. -/
def executionContent (id : String) : Option ExecutionContent :=
  (nodeOrThrow document id).map (contentOf (incomingEdges document id) (originsAt document id))

/-- An enabled edge from one node to another. -/
def Feeds (source target : String) : Prop :=
  source ∈ knownNodeIds document ∧ target ∈ knownNodeIds document ∧
    ∃ edge ∈ document.edges, edge.enabled ∧ edge.fromNode = source ∧ edge.toNode = target

/-- A node leads to another over enabled edges, or is the same. -/
abbrev Upstream : String → String → Prop := ReflTransGen (Feeds document)

end Content

variable {source target id : String} {roots : List String}

section Descendants

variable {document : AuthoredGraphDocument}

/-- What the schema and the commands keep: nodes have an id, and edges and origins have
ids of their own. -/
structure WellIdentified (document : AuthoredGraphDocument) : Prop where
  nodes : "" ∉ knownNodeIds document
  edges : (document.edges.map GraphEdge.id).Nodup
  origins : (document.origins.map GraphOrigin.id).Nodup

section

variable (hempty : "" ∉ knownNodeIds document)
include hempty

theorem mem_enabledTargets (hsource : source ∈ knownNodeIds document) :
    target ∈ enabledTargets document source ↔ Feeds document source target := by
  have hne : source ≠ "" := fun heq => hempty (heq ▸ hsource)
  rw [enabledTargets, if_neg hne, List.mem_map]
  constructor
  · rintro ⟨edge, hedge, rfl⟩
    obtain ⟨hmem, hcheck⟩ := List.mem_filter.mp hedge
    obtain ⟨henabled, hfrom, hknown⟩ := of_decide_eq_true hcheck
    exact ⟨hsource, hknown, edge, hmem, henabled, hfrom, rfl⟩
  · rintro ⟨-, hknown, edge, hmem, henabled, hfrom, rfl⟩
    exact ⟨edge, List.mem_filter.mpr ⟨hmem, decide_eq_true ⟨henabled, hfrom, hknown⟩⟩, rfl⟩

/-- The descendants are the nodes that the roots which are nodes lead to. -/
theorem mem_executionDescendants :
    id ∈ executionDescendants document roots ↔
      ∃ root ∈ roots, root ∈ knownNodeIds document ∧ Upstream document root id := by
  have hmarked : ∀ a, a ∈ ((roots.filter (fun id => id ∈ knownNodeIds document)).foldl
      Traversal.mark ([], [])).1 ↔ a ∈ roots ∧ a ∈ knownNodeIds document := by
    intro a
    rw [Traversal.mem_foldl_mark, List.mem_filter, decide_eq_true_eq]
    exact or_iff_right List.not_mem_nil
  have hpending : ∀ a, a ∈ ((roots.filter (fun id => id ∈ knownNodeIds document)).foldl
      Traversal.mark ([], [])).2 ↔ a ∈ roots ∧ a ∈ knownNodeIds document := by
    intro a
    rw [Traversal.mem_foldl_mark_rest, List.mem_filter, decide_eq_true_eq]
    simp
  rw [executionDescendants, Traversal.mem_flood]
  · constructor
    · rintro ⟨root, hroot, hreach⟩
      obtain ⟨hroots, hknown⟩ := (hmarked root).mp hroot
      refine ⟨root, hroots, hknown, ?_⟩
      have hboth : Upstream document root id ∧ id ∈ knownNodeIds document := by
        induction hreach with
        | refl => exact ⟨.refl, hknown⟩
        | tail _ hstep ih =>
          have hfeeds := (mem_enabledTargets hempty ih.2).mp hstep
          exact ⟨ih.1.tail hfeeds, hfeeds.2.1⟩
      exact hboth.1
    · rintro ⟨root, hroots, hknown, hreach⟩
      refine ⟨root, (hmarked root).mpr ⟨hroots, hknown⟩, ?_⟩
      exact ReflTransGen.mono
        (fun a b hfeeds => (mem_enabledTargets hempty hfeeds.1).mpr hfeeds) _ _ hreach
  · exact fun a ha => (hmarked a).mpr ((hpending a).mp ha)
  · exact fun a ha hnot => absurd ((hpending a).mpr ((hmarked a).mp ha)) hnot

/-- The descendants of a root are closed under enabled edges. -/
theorem executionDescendants_closed (h : source ∈ executionDescendants document roots)
    (hfeeds : Feeds document source target) : target ∈ executionDescendants document roots := by
  obtain ⟨root, hroots, hknown, hreach⟩ := (mem_executionDescendants hempty).mp h
  exact (mem_executionDescendants hempty).mpr ⟨root, hroots, hknown, hreach.tail hfeeds⟩

theorem root_mem_executionDescendants {root : String} (hroot : root ∈ roots)
    (hknown : root ∈ knownNodeIds document) : root ∈ executionDescendants document roots :=
  (mem_executionDescendants hempty).mpr ⟨root, hroot, hknown, .refl⟩

end

end Descendants

variable {nodeId edgeId originId : String} {edge : GraphEdge} {origin : GraphOrigin}

section Soundness

variable {document document' : AuthoredGraphDocument}

/-- Every node of both documents is in the set when its own content or that of a node
upstream, in the one document or the other, differs or is gone. -/
def Covers (document document' : AuthoredGraphDocument) (invalidated : List String) : Prop :=
  ∀ source target, source ∈ knownNodeIds document → target ∈ knownNodeIds document →
    target ∈ knownNodeIds document' →
    executionContent document source ≠ executionContent document' source →
    Upstream document source target ∨ Upstream document' source target → target ∈ invalidated

/-- The nodes of both documents whose own content differs are in the set. -/
def CoversOwn (document document' : AuthoredGraphDocument) (invalidated : List String) : Prop :=
  ∀ id, id ∈ knownNodeIds document → id ∈ knownNodeIds document' →
    executionContent document id ≠ executionContent document' id → id ∈ invalidated

theorem nodeOrThrow_isSome :
    id ∈ knownNodeIds document ↔ ∃ node, nodeOrThrow document id = some node := by
  rw [knownNodeIds, List.mem_map, nodeOrThrow, ← Option.isSome_iff_exists, List.find?_isSome]
  simp only [decide_eq_true_eq]

section

variable (hknown : id ∈ knownNodeIds document)
  (hsame : executionContent document id = executionContent document' id)
include hknown hsame

theorem feeds_of_executionContent :
    incomingEdges document id = incomingEdges document' id ∧
      originsAt document id = originsAt document' id := by
  obtain ⟨node, hnode⟩ := nodeOrThrow_isSome.mp hknown
  unfold executionContent at hsame
  rw [hnode, Option.map_some] at hsame
  obtain ⟨node', hnode', heq⟩ := Option.map_eq_some_iff.mp hsame.symm
  exact ⟨(congrArg ExecutionContent.incoming heq).symm,
    (congrArg ExecutionContent.origins heq).symm⟩

end

theorem mem_incomingEdges :
    (∃ edge ∈ incomingEdges document id, edge.fromNode = source) ↔
      ∃ edge ∈ document.edges, edge.enabled ∧ edge.fromNode = source ∧ edge.toNode = id := by
  constructor
  · rintro ⟨_, hmem, hfrom⟩
    obtain ⟨edge, hedge, rfl⟩ := List.mem_map.mp hmem
    obtain ⟨hmem, hcheck⟩ := List.mem_filter.mp hedge
    obtain ⟨hto, henabled⟩ := of_decide_eq_true hcheck
    exact ⟨edge, hmem, henabled, hfrom, hto⟩
  · rintro ⟨edge, hmem, henabled, hfrom, hto⟩
    exact ⟨_, List.mem_map_of_mem (List.mem_filter.mpr ⟨hmem, decide_eq_true ⟨hto, henabled⟩⟩),
      hfrom⟩

/-- A node of unchanged content is fed by the same nodes. -/
theorem feeds_of_same (hsource : source ∈ knownNodeIds document)
    (htarget : target ∈ knownNodeIds document)
    (hsame : executionContent document target = executionContent document' target)
    (hfeeds : Feeds document' source target) : Feeds document source target := by
  refine ⟨hsource, htarget, mem_incomingEdges.mp ?_⟩
  rw [(feeds_of_executionContent htarget hsame).1]
  exact mem_incomingEdges.mpr hfeeds.2.2

variable {invalidated : List String}

/-- A set that is closed under enabled edges and covers the nodes that differ and those
fed by a removed node covers all that is downstream. -/
theorem covers_of_own (hnodes : ∀ id ∈ knownNodeIds document', id ∈ knownNodeIds document)
    (hclosed : ∀ source ∈ invalidated, ∀ target, Feeds document source target → target ∈
      invalidated)
    (hremoved : ∀ source target, source ∉ knownNodeIds document' → Feeds document source target →
      target ∈ knownNodeIds document' → target ∈ invalidated)
    (hown : CoversOwn document document' invalidated) : Covers document document' invalidated := by
  intro source target hsource htarget htarget' hdiffers hpath
  have hstart : source ∈ knownNodeIds document' → source ∈ invalidated := fun hkept =>
    hown source hsource hkept hdiffers
  clear htarget
  rcases hpath with hpath | hpath
  · have hall : target ∈ knownNodeIds document' → target ∈ invalidated := by
      clear htarget'
      induction hpath with
      | refl => exact hstart
      | @tail before after _ hfeeds ih =>
        intro hkept
        by_cases hbefore : before ∈ knownNodeIds document'
        · exact hclosed before (ih hbefore) after hfeeds
        · exact hremoved before after hbefore hfeeds hkept
    exact hall htarget'
  · have hall : target ∈ knownNodeIds document' → target ∈ invalidated := by
      clear htarget'
      induction hpath with
      | refl => exact hstart
      | @tail before after _ hfeeds ih =>
        intro hkept
        have hold := hnodes after hkept
        by_cases hsame : executionContent document after = executionContent document' after
        · exact hclosed before (ih hfeeds.1) after
            (feeds_of_same (hnodes before hfeeds.1) hold hsame hfeeds)
        · exact hown after hold hkept hsame
    exact hall htarget'

/-- A change of the document that leaves the content of all but some nodes alone. -/
structure TouchesOnly (document document' : AuthoredGraphDocument) (touched : String → Prop) :
    Prop where
  known : ∀ id ∈ knownNodeIds document', id ∈ knownNodeIds document
  nodes : ∀ id ∈ knownNodeIds document', ¬ touched id →
    (nodeOrThrow document' id).map (contentOf [] []) =
      (nodeOrThrow document id).map (contentOf [] [])
  edges : ∀ id, ¬ touched id → incomingEdges document' id = incomingEdges document id
  origins : ∀ id, ¬ touched id → originsAt document' id = originsAt document id

variable {touched : String → Prop}

theorem TouchesOnly.same (h : TouchesOnly document document' touched)
    (hknown : id ∈ knownNodeIds document') (hnot : ¬ touched id) :
    executionContent document id = executionContent document' id := by
  have hnodes := congrArg (Option.map (fun content : ExecutionContent =>
    { content with
      incoming := incomingEdges document id
      origins := originsAt document id })) (h.nodes id hknown hnot)
  rw [Option.map_map, Option.map_map] at hnodes
  rw [executionContent, executionContent, h.edges id hnot, h.origins id hnot]
  exact hnodes.symm

theorem TouchesOnly.own (h : TouchesOnly document document' touched)
    (htouched : ∀ id ∈ knownNodeIds document', touched id → id ∈ invalidated) :
    CoversOwn document document' invalidated := by
  intro id _ hknown' hdiffers
  by_cases hid : touched id
  · exact htouched id hknown' hid
  · exact absurd (h.same hknown' hid) hdiffers

/-- Covering the touched nodes is enough when no node is removed. -/
theorem TouchesOnly.covers (h : TouchesOnly document document' touched)
    (hkept : ∀ id ∈ knownNodeIds document, id ∈ knownNodeIds document')
    (hclosed : ∀ source ∈ invalidated, ∀ target, Feeds document source target → target ∈
      invalidated) (htouched : ∀ id ∈ knownNodeIds document, touched id → id ∈ invalidated) :
    Covers document document' invalidated :=
  covers_of_own h.known hclosed
    (fun source _ hgone hfeeds _ => absurd (hkept source hfeeds.1) hgone)
    (h.own fun id hknown' => htouched id (h.known id hknown'))

theorem incomingEdges_filter {keep : GraphEdge → Bool}
    (hkeep : ∀ edge ∈ document.edges, edge.toNode = id → keep edge)
    (hedges : document'.edges = document.edges.filter keep) :
    incomingEdges document' id = incomingEdges document id := by
  rw [incomingEdges, incomingEdges, hedges, List.filter_filter]
  refine congrArg _ (List.filter_congr fun edge hedge => ?_)
  by_cases hto : edge.toNode = id
  · rw [hkeep edge hedge hto, Bool.and_true]
  · simp [hto]

theorem originsAt_filter {keep : GraphOrigin → Bool}
    (hkeep : ∀ origin ∈ document.origins, origin.toNode = id → keep origin)
    (horigins : document'.origins = document.origins.filter keep) :
    originsAt document' id = originsAt document id := by
  rw [originsAt, originsAt, horigins, List.filter_filter]
  refine List.filter_congr fun origin horigin => ?_
  by_cases hto : origin.toNode = id
  · rw [hkeep origin horigin hto, Bool.and_true]
  · simp [hto]

/-- A node as it was, but perhaps for the content of a touched one. -/
def Rewrites (touched : String → Prop) (node node' : GraphNode) : Prop :=
  node'.id = node.id ∧ (¬ touched node.id → contentOf [] [] node' = contentOf [] [] node)

theorem find?_rewritten {nodes nodes' : List GraphNode}
    (h : List.Forall₂ (Rewrites touched) nodes nodes') (hnot : ¬ touched id) :
    (nodes'.find? (fun node => node.id = id)).map (contentOf [] []) =
      (nodes.find? (fun node => node.id = id)).map (contentOf [] []) := by
  induction h with
  | nil => rfl
  | @cons node node' rest rest' hpair _ ih =>
    by_cases hid : node.id = id
    · have hid' : node'.id = id := hpair.1.trans hid
      rw [List.find?_cons_of_pos (by simpa using hid'), List.find?_cons_of_pos (by simpa using hid)]
      exact congrArg some (hpair.2 (hid ▸ hnot))
    · have hid' : node'.id ≠ id := fun heq => hid (hpair.1.symm.trans heq)
      rw [List.find?_cons_of_neg (by simpa using hid'), List.find?_cons_of_neg (by simpa using hid)]
      exact ih

theorem touchesOnly_of_nodes
    (hnodes : List.Forall₂ (Rewrites touched) document.nodes document'.nodes)
    (hedges : ∀ id, ¬ touched id → incomingEdges document' id = incomingEdges document id)
    (horigins : ∀ id, ¬ touched id → originsAt document' id = originsAt document id) :
    TouchesOnly document document' touched ∧ knownNodeIds document' = knownNodeIds document := by
  have hknown : knownNodeIds document' = knownNodeIds document :=
    (Alignment.map_eq hnodes fun _ _ hpair => hpair.1.symm).symm
  exact ⟨⟨fun id hid => hknown ▸ hid, fun id _ hnot => find?_rewritten hnodes hnot, hedges,
    horigins⟩, hknown⟩

theorem rewrites_refl (touched : String → Prop) (nodes : List GraphNode) :
    List.Forall₂ (Rewrites touched) nodes nodes :=
  List.forall₂_same.mpr fun _ _ => ⟨rfl, fun _ => rfl⟩

variable {update : GraphNode → Option GraphNode}

/-- An update of one node keeps the other nodes, the edges and the origins. -/
theorem updateNode_rewrites (hid : ∀ node node', update node = some node' → node'.id = node.id)
    (h : updateNode document nodeId update = some document') :
    List.Forall₂ (Rewrites (· = nodeId)) document.nodes document'.nodes ∧
      document'.edges = document.edges ∧ document'.origins = document.origins := by
  unfold updateNode at h
  obtain ⟨_, -, h⟩ := Option.bind_eq_some_iff.mp h
  obtain ⟨nodes, hnodes, h⟩ := Option.bind_eq_some_iff.mp h
  cases h
  refine ⟨(Loops.mapM_some_iff.mp hnodes).imp fun node node' hpair => ?_, rfl, rfl⟩
  by_cases hnode : node.id = nodeId
  · rw [if_pos hnode] at hpair
    exact ⟨hid node node' hpair, fun hnot => absurd hnode hnot⟩
  · rw [if_neg hnode] at hpair
    cases hpair
    exact ⟨rfl, fun _ => rfl⟩

/-- Commands that change one node and drop edges and origins of it. -/
theorem updateNode_touches {nodeId : String} {update : GraphNode → Option GraphNode}
    {next : AuthoredGraphDocument} {keepEdge : GraphEdge → Bool} {keepOrigin : GraphOrigin → Bool}
    (hid : ∀ node node', update node = some node' → node'.id = node.id)
    (hnext : updateNode document nodeId update = some next)
    (hedge : ∀ edge, edge.toNode ≠ nodeId → keepEdge edge)
    (horigin : ∀ origin, origin.toNode ≠ nodeId → keepOrigin origin)
    (hresult : document' = { next with
      edges := next.edges.filter keepEdge
      origins := next.origins.filter keepOrigin }) :
    TouchesOnly document document' (· = nodeId) ∧
      knownNodeIds document' = knownNodeIds document := by
  obtain ⟨hnodes, hedges, horigins⟩ := updateNode_rewrites hid hnext
  subst hresult
  refine touchesOnly_of_nodes hnodes (fun id hne => ?_) (fun id hne => ?_)
  · exact incomingEdges_filter (fun edge _ hto => hedge edge (hto ▸ hne)) (congrArg _ hedges)
  · exact originsAt_filter (fun origin _ hto => horigin origin (hto ▸ hne)) (congrArg _ horigins)

theorem updateNode_plain (hid : ∀ node node', update node = some node' → node'.id = node.id)
    (h : updateNode document nodeId update = some document') :
    TouchesOnly document document' (· = nodeId) ∧
      knownNodeIds document' = knownNodeIds document := by
  obtain ⟨hnodes, hedges, horigins⟩ := updateNode_rewrites hid h
  refine touchesOnly_of_nodes hnodes (fun id _ => ?_) (fun id _ => ?_)
  · rw [incomingEdges, incomingEdges, hedges]
  · rw [originsAt, originsAt, horigins]

/-- The descendants of the roots cover a change that touches only descendants. -/
theorem covers_descendants (hempty : "" ∉ knownNodeIds document) {touched : String → Prop}
    {roots : List String}
    (h : TouchesOnly document document' touched ∧ knownNodeIds document' = knownNodeIds document)
    (htouched : ∀ id ∈ knownNodeIds document, touched id →
      id ∈ executionDescendants document roots) :
    Covers document document' (executionDescendants document roots) :=
  h.1.covers (fun _ hid => h.2 ▸ hid)
    (fun _ hsource _ hfeeds => executionDescendants_closed hempty hsource hfeeds) htouched

theorem covers_node (hempty : "" ∉ knownNodeIds document)
    (h : TouchesOnly document document' (· = nodeId) ∧ knownNodeIds document' = knownNodeIds
      document) :
    Covers document document' (executionDescendants document [nodeId]) := by
  refine covers_descendants hempty h fun id hknown hid => ?_
  subst hid
  exact root_mem_executionDescendants hempty (List.mem_singleton_self _) hknown

theorem covers_nothing
    (h : TouchesOnly document document' (fun _ => False) ∧
      knownNodeIds document' = knownNodeIds document) : Covers document document' [] :=
  h.1.covers (fun _ hid => h.2 ▸ hid) (fun _ hsource => absurd hsource List.not_mem_nil)
    (fun _ _ htouched => htouched.elim)

theorem touchesOnly_refl (touched : String → Prop) (name : String) (agents : List GraphAgent) :
    TouchesOnly document { document with name := name, agents := agents } touched ∧
      knownNodeIds { document with name := name, agents := agents } = knownNodeIds document :=
  touchesOnly_of_nodes (rewrites_refl touched _) (fun _ _ => rfl) (fun _ _ => rfl)

/-- The edge an id names is the only one with the id. -/
theorem eq_of_edgeOrThrow (hedges : (document.edges.map GraphEdge.id).Nodup) {held : GraphEdge}
    (hfound : edgeOrThrow document edgeId = some edge) (hheld : held ∈ document.edges)
    (hid : held.id = edgeId) : held = edge := by
  have hmem := List.mem_of_find?_eq_some hfound
  have hedge : edge.id = edgeId := by simpa using List.find?_some hfound
  exact List.inj_on_of_nodup_map hedges hheld hmem (hid.trans hedge.symm)

theorem eq_of_originOrThrow (horigins : (document.origins.map GraphOrigin.id).Nodup)
    {held : GraphOrigin} (hfound : originOrThrow document originId = some origin)
    (hheld : held ∈ document.origins) (hid : held.id = originId) : held = origin := by
  have hmem := List.mem_of_find?_eq_some hfound
  have horigin : origin.id = originId := by simpa using List.find?_some hfound
  exact List.inj_on_of_nodup_map horigins hheld hmem (hid.trans horigin.symm)

/-- An updated edge keeps its ends. -/
theorem incomingEdges_updated {id : String} {change : GraphEdge → GraphEdge}
    (hto : ∀ edge, (change edge).toNode = edge.toNode)
    (hsame : ∀ edge ∈ document.edges, edge.toNode = id →
      (change edge).enabled = edge.enabled ∧
        { change edge with routeOffset := none } = { edge with routeOffset := none })
    (hedges : document'.edges = document.edges.map change) :
    incomingEdges document' id = incomingEdges document id := by
  rw [incomingEdges, incomingEdges, hedges, List.filter_map, List.map_map]
  have hfilter : document.edges.filter ((fun edge => decide (edge.toNode = id ∧ edge.enabled)) ∘
      change) = document.edges.filter (fun edge => edge.toNode = id ∧ edge.enabled) := by
    refine List.filter_congr fun edge hedge => ?_
    rw [Function.comp_apply, hto]
    by_cases hid : edge.toNode = id
    · rw [(hsame edge hedge hid).1]
    · simp [hid]
  rw [hfilter]
  refine List.map_congr_left fun edge hedge => ?_
  obtain ⟨hmem, hcheck⟩ := List.mem_filter.mp hedge
  exact (hsame edge hmem (of_decide_eq_true hcheck).1).2

end Soundness

section Commands

variable {document document' : AuthoredGraphDocument}

section

variable (h : WellIdentified document)
include h

theorem covers_updateEdge {update : EdgeUpdate}
    (happly : applyGraphCommandNormalized document (.updateEdge edgeId update) = some document') :
    Covers document document'
      (executionInvalidatedNodeIds document (.updateEdge edgeId update)) := by
  rw [applyGraphCommandNormalized, projectSavedGraphEdgeUpdate_eq] at happly
  obtain ⟨edge, hfound, happly⟩ := Option.bind_eq_some_iff.mp happly
  cases happly
  have hto : ∀ held : GraphEdge,
      (if held.id = edgeId then updatedEdge update held else held).toNode = held.toNode := by
    intro held
    split_ifs <;> rfl
  rw [executionInvalidatedNodeIds]
  by_cases hroute : update.routeOnly
  · rw [if_pos hroute]
    refine covers_nothing (touchesOnly_of_nodes (rewrites_refl _ _) (fun id _ => ?_)
      (fun _ _ => rfl))
    refine incomingEdges_updated hto (fun held _ _ => ?_) rfl
    obtain ⟨hmode, henabled, hprojection, hpath, hplug, hfrom, hport⟩ := hroute
    split_ifs
    · simp [updatedEdge, hmode, henabled, hprojection, hpath, hplug, hfrom, hport]
    · exact ⟨rfl, rfl⟩
  · rw [if_neg hroute, hfound]
    refine covers_node h.nodes (touchesOnly_of_nodes (rewrites_refl _ _) (fun id hne => ?_)
      (fun _ _ => rfl))
    refine incomingEdges_updated hto (fun held hheld hid => ?_) rfl
    have hother : held.id ≠ edgeId := fun heq =>
      hne (hid ▸ congrArg GraphEdge.toNode (eq_of_edgeOrThrow h.edges hfound hheld heq))
    rw [if_neg hother]
    exact ⟨rfl, rfl⟩

theorem covers_addEdge
    (happly : applyGraphCommandNormalized document (.addEdge edge) = some document') :
    Covers document document' (executionInvalidatedNodeIds document (.addEdge edge)) := by
  rw [applyGraphCommandNormalized, projectSavedGraphEdge_eq] at happly
  split_ifs at happly
  cases happly
  refine covers_node h.nodes (touchesOnly_of_nodes (rewrites_refl _ _) (fun id hne => ?_)
    (fun _ _ => rfl))
  have hnew : [edge].filter (fun held => held.toNode = id ∧ held.enabled) = [] := by
    simp [Ne.symm hne]
  rw [incomingEdges, incomingEdges, List.filter_append, hnew, List.append_nil]

theorem covers_addOrigin
    (happly : applyGraphCommandNormalized document (.addOrigin origin) = some document') :
    Covers document document' (executionInvalidatedNodeIds document (.addOrigin origin)) := by
  rw [applyGraphCommandNormalized, projectSavedGraphOrigin_eq] at happly
  split_ifs at happly
  cases happly
  refine covers_node h.nodes (touchesOnly_of_nodes (rewrites_refl _ _) (fun _ _ => rfl)
    (fun id hne => ?_))
  have hnew : [origin].filter (fun held => held.toNode = id) = [] := by
    simp [Ne.symm hne]
  rw [originsAt, originsAt, List.filter_append, hnew, List.append_nil]

theorem covers_removeEdges {edgeIds : List String}
    (happly : applyGraphCommandNormalized document (.removeEdges edgeIds) = some document') :
    Covers document document' (executionInvalidatedNodeIds document (.removeEdges edgeIds)) := by
  cases happly
  refine covers_descendants h.nodes (touchesOnly_of_nodes (rewrites_refl _ _) (fun id hnot => ?_)
    (fun _ _ => rfl)) (fun id hknown hroot => root_mem_executionDescendants h.nodes hroot hknown)
  refine incomingEdges_filter (fun edge hedge hto => ?_) rfl
  have hkept : edge.id ∉ edgeIds := by
    intro hremoved
    refine hnot (hto ▸ List.mem_map_of_mem ?_)
    exact List.mem_filter.mpr ⟨hedge, decide_eq_true hremoved⟩
  exact decide_eq_true hkept

theorem covers_removeOrigins {originIds : List String}
    (happly : applyGraphCommandNormalized document (.removeOrigins originIds) = some document') :
    Covers document document'
      (executionInvalidatedNodeIds document (.removeOrigins originIds)) := by
  cases happly
  refine covers_descendants h.nodes (touchesOnly_of_nodes (rewrites_refl _ _) (fun _ _ => rfl)
    (fun id hnot => ?_)) (fun id hknown hroot => root_mem_executionDescendants h.nodes hroot hknown)
  refine originsAt_filter (fun origin horigin hto => ?_) rfl
  have hkept : origin.id ∉ originIds := by
    intro hremoved
    refine hnot (hto ▸ List.mem_map_of_mem ?_)
    exact List.mem_filter.mpr ⟨horigin, decide_eq_true hremoved⟩
  exact decide_eq_true hkept

end

variable {nodeIds : List String}

theorem mem_known_removed :
    id ∈ (document.nodes.filter (fun node => node.id ∉ nodeIds)).map GraphNode.id ↔
      id ∈ knownNodeIds document ∧ id ∉ nodeIds := by
  rw [List.mem_map, knownNodeIds, List.mem_map]
  constructor
  · rintro ⟨node, hnode, rfl⟩
    obtain ⟨hmem, hkept⟩ := List.mem_filter.mp hnode
    exact ⟨⟨node, hmem, rfl⟩, of_decide_eq_true hkept⟩
  · rintro ⟨⟨node, hmem, rfl⟩, hkept⟩
    exact ⟨node, List.mem_filter.mpr ⟨hmem, decide_eq_true hkept⟩, rfl⟩

/-- The targets of the edges that go with removed nodes are the roots. -/
theorem covers_removeNodes (h : WellIdentified document)
    (happly : applyGraphCommandNormalized document (.removeNodes nodeIds) = some document') :
    Covers document document' (executionInvalidatedNodeIds document (.removeNodes nodeIds)) := by
  cases happly
  have hroot : ∀ edge ∈ document.edges, edge.fromNode ∈ nodeIds →
      edge.toNode ∈ knownNodeIds document →
      edge.toNode ∈ executionInvalidatedNodeIds document (.removeNodes nodeIds) := by
    intro edge hedge hfrom hknown
    refine root_mem_executionDescendants h.nodes (List.mem_append_left _ ?_) hknown
    exact List.mem_map_of_mem (List.mem_filter.mpr ⟨hedge, decide_eq_true hfrom⟩)
  have htouches : TouchesOnly document { document with
      nodes := document.nodes.filter (fun node => node.id ∉ nodeIds)
      edges := document.edges.filter (fun edge => edge.fromNode ∉ nodeIds ∧ edge.toNode ∉ nodeIds)
      origins := document.origins.filter (fun origin => origin.toNode ∉ nodeIds) }
      (fun id => id ∈ nodeIds ∨ ∃ edge ∈ document.edges, edge.fromNode ∈ nodeIds ∧
        edge.toNode = id) := by
    refine ⟨fun id hid => (mem_known_removed.mp hid).1, fun id hid _ => ?_, fun id hnot => ?_,
      fun id hnot => ?_⟩
    · have hkept := (mem_known_removed.mp hid).2
      unfold nodeOrThrow
      rw [List.find?_filter]
      refine congrArg _ (congrArg (List.find? · _) (funext fun node => ?_))
      by_cases hnode : node.id = id
      · simp [hnode, hkept]
      · simp [hnode]
    · refine incomingEdges_filter (fun edge hedge hto => decide_eq_true ⟨fun hfrom => ?_, ?_⟩) rfl
      · exact hnot (Or.inr ⟨edge, hedge, hfrom, hto⟩)
      · exact fun hgone => hnot (Or.inl (hto ▸ hgone))
    · have hkept : id ∉ nodeIds := fun hgone => hnot (Or.inl hgone)
      exact originsAt_filter (fun origin _ hto => decide_eq_true (hto.symm ▸ hkept)) rfl
  refine covers_of_own htouches.known ?_ ?_ (htouches.own fun id hknown' htouched => ?_)
  · exact fun _ hsource _ hfeeds => executionDescendants_closed h.nodes hsource hfeeds
  · rintro source target hgone ⟨hsource, htarget, edge, hedge, -, rfl, rfl⟩ -
    refine hroot edge hedge ?_ htarget
    by_contra hkept
    exact hgone (mem_known_removed.mpr ⟨hsource, hkept⟩)
  · obtain ⟨hknown, hkept⟩ := mem_known_removed.mp hknown'
    obtain ⟨edge, hedge, hfrom, rfl⟩ := htouched.resolve_left hkept
    exact hroot edge hedge hfrom hknown

theorem covers_addNode {node : GraphNode}
    (happly : applyGraphCommandNormalized document (.addNode node) = some document') :
    Covers document document' [] := by
  rw [applyGraphCommandNormalized, projectSavedGraphNode_eq] at happly
  split_ifs at happly
  cases happly
  intro source target hsource _ _ hdiffers _
  refine absurd ?_ hdiffers
  obtain ⟨held, hheld⟩ := nodeOrThrow_isSome.mp hsource
  have hfound : nodeOrThrow { document with nodes := document.nodes ++ [node] } source =
      some held := by
    unfold nodeOrThrow at hheld ⊢
    rw [List.find?_append, hheld]
    rfl
  rw [executionContent, executionContent, hheld, hfound]
  rfl

variable {originId : String} {update : OriginUpdate} {origin : GraphOrigin}

/-- An updated origin touches the node it leaves and the one it moves to. -/
theorem updateOrigin_touches (h : WellIdentified document)
    (hfound : originOrThrow document originId = some origin) :
    TouchesOnly document { document with origins := document.origins.map (fun held =>
        if held.id = originId then updatedOrigin update held else held) }
      (fun id => id = origin.toNode ∨ update.toNode = some id) ∧
    knownNodeIds document = knownNodeIds document := by
  refine touchesOnly_of_nodes (rewrites_refl _ _) (fun _ _ => rfl) fun id hnot => ?_
  have hleft : ∀ held ∈ document.origins, held.id = originId → held.toNode ≠ id ∧
      (updatedOrigin update held).toNode ≠ id := by
    intro held hheld hid
    obtain rfl := eq_of_originOrThrow h.origins hfound hheld hid
    refine ⟨fun hto => hnot (Or.inl hto.symm), fun hto => ?_⟩
    cases hmoved : update.toNode with
    | none =>
      rw [updatedOrigin, hmoved] at hto
      exact hnot (Or.inl hto.symm)
    | some target =>
      rw [updatedOrigin, hmoved] at hto
      exact hnot (Or.inr (hmoved.trans (congrArg some hto)))
  rw [originsAt, originsAt, List.filter_map]
  have hfilter : document.origins.filter ((fun held => decide (held.toNode = id)) ∘
      (fun held => if held.id = originId then updatedOrigin update held else held)) =
      document.origins.filter (fun held => held.toNode = id) := by
    refine List.filter_congr fun held hheld => ?_
    rw [Function.comp_apply]
    split_ifs with hid
    · obtain ⟨hold, hnew⟩ := hleft held hheld hid
      rw [decide_eq_false hold, decide_eq_false hnew]
    · rfl
  rw [hfilter]
  refine (List.map_congr_left fun held hheld => ?_).trans (List.map_id _)
  obtain ⟨hmem, hto⟩ := List.mem_filter.mp hheld
  have hother : held.id ≠ originId := fun hid => (hleft held hmem hid).1 (of_decide_eq_true hto)
  rw [if_neg hother, id_eq]

/-- The command moves no origin to a node that is not reached from the one it leaves. -/
def StaysDownstream (document : AuthoredGraphDocument) : LocalCommand → Prop
  | .updateOrigin originId update => ∀ origin target,
      originOrThrow document originId = some origin → update.toNode = some target →
      target ∈ knownNodeIds document →
        origin.toNode ∈ knownNodeIds document ∧ Upstream document origin.toNode target
  | _ => True

/-- An origin that moves to another node changes the content of that node. -/
theorem moved_origin_differs (h : WellIdentified document)
    (hfound : originOrThrow document originId = some origin) (hmove : update.toNode = some target)
    (hknown : target ∈ knownNodeIds document) (hother : target ≠ origin.toNode) :
    executionContent document target ≠
      executionContent { document with origins := document.origins.map (fun held =>
        if held.id = originId then updatedOrigin update held else held) } target := by
  intro hsame
  have horigins := (feeds_of_executionContent hknown hsame).2
  have horiginId : origin.id = originId := by simpa using List.find?_some hfound
  have hto : (updatedOrigin update origin).toNode = target := by rw [updatedOrigin, hmove]; rfl
  have hmoved : updatedOrigin update origin ∈ originsAt document target := by
    rw [horigins]
    refine List.mem_filter.mpr ⟨List.mem_map.mpr ⟨origin, ?_, if_pos horiginId⟩, decide_eq_true hto⟩
    exact List.mem_of_find?_eq_some hfound
  have hsame := eq_of_originOrThrow h.origins hfound (List.mem_filter.mp hmoved).1 horiginId
  exact hother (hto.symm.trans (congrArg GraphOrigin.toNode hsame))

theorem covers_updateOrigin_iff (h : WellIdentified document) {originId : String}
    {update : OriginUpdate}
    (happly : applyGraphCommandNormalized document (.updateOrigin originId update) =
      some document') :
    Covers document document'
        (executionInvalidatedNodeIds document (.updateOrigin originId update)) ↔
      StaysDownstream document (.updateOrigin originId update) := by
  rw [applyGraphCommandNormalized, projectSavedGraphOriginUpdate_eq] at happly
  obtain ⟨origin, hfound, happly⟩ := Option.bind_eq_some_iff.mp happly
  cases happly
  simp only [executionInvalidatedNodeIds, hfound, StaysDownstream]
  constructor
  · intro hcovers held target hheld hmove hknown
    cases hheld
    by_cases hsame : target = origin.toNode
    · exact ⟨hsame ▸ hknown, hsame ▸ .refl⟩
    · have hin := hcovers target target hknown hknown hknown
        (moved_origin_differs h hfound hmove hknown hsame) (Or.inl .refl)
      obtain ⟨root, hroot, hrootKnown, hreach⟩ := (mem_executionDescendants h.nodes).mp hin
      obtain rfl := List.mem_singleton.mp hroot
      exact ⟨hrootKnown, hreach⟩
  · intro hstays
    refine covers_descendants h.nodes (updateOrigin_touches h hfound) fun id hknown hid => ?_
    rcases hid with rfl | hmove
    · exact root_mem_executionDescendants h.nodes (List.mem_singleton_self _) hknown
    · obtain ⟨hroot, hreach⟩ := hstays origin id rfl hmove hknown
      exact (mem_executionDescendants h.nodes).mpr
        ⟨origin.toNode, List.mem_singleton_self _, hroot, hreach⟩

theorem covers_mapped {change : GraphNode → GraphNode}
    (hchange : ∀ node, (change node).id = node.id ∧
      contentOf [] [] (change node) = contentOf [] [] node)
    (hresult : document' = { document with nodes := document.nodes.map change }) :
    Covers document document' [] := by
  subst hresult
  refine covers_nothing (touchesOnly_of_nodes ?_ (fun _ _ => rfl) (fun _ _ => rfl))
  rw [List.forall₂_map_right_iff, List.forall₂_same]
  exact fun node _ => ⟨(hchange node).1, fun _ => (hchange node).2⟩

theorem covers_moveNodes {positions : List Move}
    (happly : applyGraphCommandNormalized document (.moveNodes positions) = some document') :
    Covers document document' [] := by
  obtain ⟨_, -, happly⟩ := Option.bind_eq_some_iff.mp happly
  refine covers_mapped (fun node => ?_) (Option.some.inj happly).symm
  split <;> exact ⟨rfl, rfl⟩

theorem covers_updateNodeLayout {layout : Option GraphNodeLayout}
    (happly : applyGraphCommandNormalized document (.updateNodeLayout nodeId layout) = some
      document') : Covers document document' [] := by
  rw [applyGraphCommandNormalized, updateNode_some] at happly
  obtain ⟨_, -, hresult⟩ := Option.map_eq_some_iff.mp happly
  refine covers_mapped (fun node => ?_) hresult.symm
  split_ifs <;> exact ⟨rfl, rfl⟩

section

variable (h : WellIdentified document)
include h

theorem covers_updateNode {update : GraphNode → GraphNode}
    (hid : ∀ node, (update node).id = node.id)
    (happly : updateNode document nodeId (fun node => some (update node)) = some document') :
    Covers document document' (executionDescendants document [nodeId]) := by
  refine covers_node h.nodes (updateNode_plain (fun node node' hnode => ?_) happly)
  cases hnode
  exact hid node

variable {plugId : String}

theorem covers_reorderInputPlug {port : String} {toIndex : ℤ}
    (happly : applyGraphCommandNormalized document (.reorderInputPlug nodeId port plugId toIndex) =
      some document') : Covers document document' (executionDescendants document [nodeId]) := by
  refine covers_node h.nodes (updateNode_plain (fun node node' hnode => ?_) happly)
  obtain ⟨plugs, -, rfl⟩ := Option.map_eq_some_iff.mp hnode
  rfl

theorem covers_removeInputPlug
    (happly : applyGraphCommandNormalized document (.removeInputPlug nodeId plugId) = some
      document') : Covers document document' (executionDescendants document [nodeId]) := by
  obtain ⟨next, hnext, happly⟩ := Option.bind_eq_some_iff.mp happly
  refine covers_node h.nodes (updateNode_touches (fun node node' hnode => ?_) hnext ?_ ?_
    (Option.some.inj happly).symm)
  · cases hnode
    rfl
  · exact fun edge hne => decide_eq_true (Or.inl hne)
  · exact fun origin hne => decide_eq_true (Or.inl hne)

theorem covers_updateConfigurationAndPlugs {config : Dict String CanonicalJson.Json}
    {plugs : List GraphInputPlug}
    (happly : applyGraphCommandNormalized document (.updateNodeConfigurationAndInputPlugs nodeId
      config plugs) = some document') :
    Covers document document' (executionDescendants document [nodeId]) := by
  obtain ⟨next, hnext, happly⟩ := Option.bind_eq_some_iff.mp happly
  refine covers_node h.nodes (updateNode_touches (fun node node' hnode => ?_) hnext ?_ ?_
    (Option.some.inj happly).symm)
  · cases hnode
    rfl
  · exact fun edge hne => decide_eq_true (Or.inl hne)
  · exact fun origin hne => decide_eq_true (Or.inl hne)

end

variable {agent : GraphAgent}

theorem covers_addAgent
    (happly : applyGraphCommandNormalized document (.addAgent agent) = some document') :
    Covers document document' [] := by
  rw [applyGraphCommandNormalized] at happly
  split_ifs at happly
  cases happly
  exact covers_nothing (touchesOnly_refl _ _ _)

theorem covers_configureAgent
    (happly : applyGraphCommandNormalized document (.configureAgent agent) = some document') :
    Covers document document' [] := by
  obtain ⟨_, -, happly⟩ := Option.bind_eq_some_iff.mp happly
  cases happly
  exact covers_nothing (touchesOnly_refl _ _ _)

theorem covers_normalized_iff (h : WellIdentified document) {command : LocalCommand}
    (happly : applyGraphCommandNormalized document command = some document') :
    Covers document document' (executionInvalidatedNodeIds document command) ↔
      StaysDownstream document command := by
  cases command with
  | updateOrigin originId update => exact covers_updateOrigin_iff h happly
  | renameGraph name | removeAgent agentId =>
    cases happly
    exact iff_of_true (covers_nothing (touchesOnly_refl _ _ _)) trivial
  | addNode node => exact iff_of_true (covers_addNode happly) trivial
  | removeNodes nodeIds => exact iff_of_true (covers_removeNodes h happly) trivial
  | moveNodes positions => exact iff_of_true (covers_moveNodes happly) trivial
  | updateNodeConfiguration nodeId field value | addInputPlug nodeId plug
  | bindArtifactType nodeId typeVariable artifactType
  | resetArtifactTypeBinding nodeId typeVariable =>
    rw [applyGraphCommandNormalized] at happly
    refine iff_of_true (covers_updateNode h ?_ happly) trivial
    exact fun _ => rfl
  | updateNodeLayout nodeId layout => exact iff_of_true (covers_updateNodeLayout happly) trivial
  | removeInputPlug nodeId plugId => exact iff_of_true (covers_removeInputPlug h happly) trivial
  | reorderInputPlug nodeId port plugId toIndex =>
    exact iff_of_true (covers_reorderInputPlug h happly) trivial
  | updateNodeConfigurationAndInputPlugs nodeId config plugs =>
    exact iff_of_true (covers_updateConfigurationAndPlugs h happly) trivial
  | addEdge edge => exact iff_of_true (covers_addEdge h happly) trivial
  | updateEdge edgeId update => exact iff_of_true (covers_updateEdge h happly) trivial
  | removeEdges edgeIds => exact iff_of_true (covers_removeEdges h happly) trivial
  | addOrigin origin => exact iff_of_true (covers_addOrigin h happly) trivial
  | removeOrigins originIds => exact iff_of_true (covers_removeOrigins h happly) trivial
  | addAgent agent => exact iff_of_true (covers_addAgent happly) trivial
  | configureAgent agent => exact iff_of_true (covers_configureAgent happly) trivial
  | replaceDocument replacement =>
    exact iff_of_true (fun _ _ _ htarget _ _ _ => htarget) trivial

/-- The nodes invalidated cover those that change, themselves or upstream, exactly when
the command moves no origin to a node out of reach of the one it leaves. -/
theorem invalidation_covers_iff (h : WellIdentified document) {command : LocalCommand}
    (happly : applyGraphCommand document command = some document') :
    Covers document document' (executionInvalidatedNodeIds document command) ↔
      StaysDownstream document command := by
  rw [applyGraphCommand, authored_createGraphDraft] at happly
  have hnamed : WellIdentified { document with name := trimmed document.name } :=
    ⟨h.nodes, h.edges, h.origins⟩
  exact covers_normalized_iff hnamed happly

end Commands

def bareNode (id : String) : GraphNode := { (default : GraphNode) with id := id }

/-- An uploaded table handed to node `a`. -/
def tableOrigin : GraphOrigin where
  id := "o"
  toNode := "a"
  toPort := "table"
  toPlug := none
  value := .ref ⟨"t", "table", 1, none⟩
  collectionMode := .direct
  conversionPath := []

def toB : OriginUpdate := ⟨some "b", none, none, none, none, none⟩

def moveToB : LocalCommand := .updateOrigin "o" toB

/-- Node `a` feeds node `b`. -/
def chainEdge : GraphEdge := ⟨"e", true, "a", "out", "b", "in", none, .direct, none, [], none⟩

def chainedNodes : AuthoredGraphDocument :=
  ⟨"g", [bareNode "a", bareNode "b"], [chainEdge], [tableOrigin], []⟩

theorem chainedNodes_ids : WellIdentified chainedNodes where
  nodes := by decide
  edges := by decide
  origins := by decide

theorem chainedNodes_covered : ∃ document',
    applyGraphCommand chainedNodes moveToB = some document' ∧
    Covers chainedNodes document' (executionInvalidatedNodeIds chainedNodes moveToB) := by
  refine ⟨_, rfl, (invalidation_covers_iff chainedNodes_ids rfl).mpr ?_⟩
  intro origin target hfound hmove _
  cases hfound.symm.trans (rfl : _ = some tableOrigin)
  cases hmove
  have hfeeds : Feeds chainedNodes "a" "b" :=
    ⟨by decide, by decide, chainEdge, List.mem_singleton_self _, rfl, rfl, rfl⟩
  exact ⟨by decide, .single hfeeds⟩

def separateNodes : AuthoredGraphDocument :=
  ⟨"g", [bareNode "a", bareNode "b"], [], [tableOrigin], []⟩

theorem separateNodes_ids : WellIdentified separateNodes where
  nodes := by decide
  edges := by decide
  origins := by decide

/-- Only the node that loses the origin is invalidated, not the one that gets it. -/
theorem separateNodes_uncovered : ¬ ∀ document command document',
    WellIdentified document → applyGraphCommand document command = some document' →
      Covers document document' (executionInvalidatedNodeIds document command) := by
  intro hall
  have hcovers := hall separateNodes moveToB _ separateNodes_ids rfl
  have hfound : originOrThrow separateNodes "o" = some tableOrigin := rfl
  have hmove : toB.toNode = some "b" := rfl
  have hdiffers := moved_origin_differs separateNodes_ids hfound hmove (by decide) (by decide)
  have hin := hcovers "b" "b" (by decide) (by decide) (by decide) hdiffers (Or.inl .refl)
  obtain ⟨root, hroot, -, hreach⟩ := (mem_executionDescendants separateNodes_ids.nodes).mp hin
  obtain rfl := List.mem_singleton.mp hroot
  rcases hreach.cases_head with heq | ⟨next, ⟨-, -, edge, hedge, -⟩, -⟩
  · exact absurd heq (by decide)
  · cases hedge

end Grafy.AuthoredGraphs
