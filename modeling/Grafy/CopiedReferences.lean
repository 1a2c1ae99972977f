import Grafy.CommandValidity
import Grafy.CrossWorkspaceCopies

/-!
What a copy tells about the Workspace it was made in. Two documents that differ
only in references to artifacts and uploads are stripped alike, but for the
artifact cards: a viewer keeps the reference it holds. Stripping never fails on
a valid document and its result is valid.
-/
namespace Grafy.CrossWorkspaceCopies

open CanonicalJson Commands DocumentRules GraphDocuments Grafy.Project Loops OrderedDict Reloading
  Validation

section Differences

/-- An entry that refers to an artifact or to uploads. -/
def References (key : String) (value : Json) : Prop :=
  key = "artifact_id" ∨ key = "upload_key" ∨ key = "uploads" ∧ ∃ items, value = .arr items

mutual

/-- Values that differ only in references, at any depth. -/
inductive SameValue : Json → Json → Prop
  | same (value : Json) : SameValue value value
  | obj {members members' : List (String × Json)} (h : SameMembers members members') :
      SameValue (.obj members) (.obj members')
  | arr {items items' : List Json} (h : SameItems items items') :
      SameValue (.arr items) (.arr items')

inductive SameMembers : List (String × Json) → List (String × Json) → Prop
  | nil : SameMembers [] []
  | both (key : String) {value value' : Json} {rest rest' : List (String × Json)}
      (h : SameValue value value') (hrest : SameMembers rest rest') :
      SameMembers ((key, value) :: rest) ((key, value') :: rest')
  | left {key : String} {value : Json} {rest rest' : List (String × Json)}
      (h : References key value) (hrest : SameMembers rest rest') :
      SameMembers ((key, value) :: rest) rest'
  | right {key : String} {value : Json} {rest rest' : List (String × Json)}
      (h : References key value) (hrest : SameMembers rest rest') :
      SameMembers rest ((key, value) :: rest')

inductive SameItems : List Json → List Json → Prop
  | nil : SameItems [] []
  | cons {value value' : Json} {rest rest' : List Json}
      (h : SameValue value value') (hrest : SameItems rest rest') :
      SameItems (value :: rest) (value' :: rest')

end

/-- Documents that differ only in references: in the configurations, in what is
placed on inputs and in what the artifact cards show. -/
structure SameDocument (a b : GraphDocument) : Prop where
  agents : a.agents = b.agents
  nodes : List.Forall₂ (fun n m => ∃ config, SameMembers n.config config ∧
    m = { n with config := config }) a.nodes b.nodes
  edges : a.edges = b.edges
  origins : List.Forall₂ (fun o p => ∃ value, p = { o with value := value }) a.origins b.origins
  viewers : List.Forall₂ (fun v w => ∃ ref, w = { v with artifactRef := ref })
    a.presentation.viewers b.presentation.viewers
  links : a.presentation.links = b.presentation.links
  bindings : a.presentation.bindings = b.presentation.bindings
  annotations : a.presentation.annotations = b.presentation.annotations

structure SameGraph (a b : GraphDefinition) : Prop where
  id : a.id = b.id
  name : a.name = b.name
  document : SameDocument a.document b.document
  refreshGenerations : a.refreshGenerations = b.refreshGenerations

def SameProject (a b : ProjectDocument) : Prop := List.Forall₂ SameGraph a.graphs b.graphs

/-- The references of a Graph's artifact cards. -/
def cardsOf (graph : GraphDefinition) : List (Option ArtifactOutputValue) :=
  graph.document.presentation.viewers.map GraphPresentationViewer.artifactRef

def cards (project : ProjectDocument) : List (List (Option ArtifactOutputValue)) :=
  project.graphs.map cardsOf

end Differences

section Configurations

variable {key : String} {value : Json} {value' : Json}

theorem isScoped_iff : isScoped key value ↔ References key value := by
  have hlist : isList value ↔ ∃ items, value = .arr items := by
    cases value <;> simp [isList]
  simp only [isScoped, References, Bool.or_eq_true, Bool.and_eq_true, decide_eq_true_eq, hlist]
  tauto

theorem isList_same (h : SameValue value value') : isList value = isList value' := by
  cases h with
  | _ => rfl

theorem isScoped_same (key : String) (h : SameValue value value') :
    isScoped key value = isScoped key value' := by
  unfold isScoped
  rw [isList_same h]

mutual

theorem sanitizeConfigValue_same {value value' : Json} :
    SameValue value value' → sanitizeConfigValue value = sanitizeConfigValue value'
  | .same _ => rfl
  | .obj h => by
    rw [sanitizeConfigValue, sanitizeConfigValue, sanitizeMembers_same h]
  | .arr h => by
    rw [sanitizeConfigValue, sanitizeConfigValue, sanitizeItems_same h]

theorem sanitizeMembers_same {members members' : List (String × Json)} :
    SameMembers members members' → sanitizeMembers members = sanitizeMembers members'
  | .nil => rfl
  | .both key h hrest => by
    rw [sanitizeMembers, sanitizeMembers, isScoped_same key h, sanitizeConfigValue_same h,
      sanitizeMembers_same hrest]
  | .left h hrest => by
    rw [sanitizeMembers, if_pos (isScoped_iff.mpr h), sanitizeMembers_same hrest]
  | .right h hrest => by
    rw [sanitizeMembers_same hrest, sanitizeMembers, if_pos (isScoped_iff.mpr h)]

theorem sanitizeItems_same {items items' : List Json} :
    SameItems items items' → sanitizeItems items = sanitizeItems items'
  | .nil => rfl
  | .cons h hrest => by
    rw [sanitizeItems, sanitizeItems, sanitizeConfigValue_same h, sanitizeItems_same hrest]

end

theorem get?_sanitizeMembers (hkey : ∀ value, ¬ References key value) (config : Dict String Json) :
    Dict.get? (sanitizeMembers config) key = (config.get? key).map sanitizeConfigValue := by
  induction config with
  | nil => rfl
  | cons entry rest ih =>
    obtain ⟨key', value⟩ := entry
    rw [sanitizeMembers, Dict.get?_cons]
    split_ifs with hscoped heq heq
    · subst heq
      exact absurd (isScoped_iff.mp hscoped) (hkey value)
    · exact ih
    · rw [Dict.get?_cons, if_pos heq, Option.map_some]
    · rw [Dict.get?_cons, if_neg heq, ih]

theorem mem_keys_sanitizeMembers {config : Dict String Json}
    (h : key ∈ Dict.keys (sanitizeMembers config)) : key ∈ config.keys := by
  induction config with
  | nil => exact h
  | cons entry rest ih =>
    obtain ⟨key', value⟩ := entry
    rw [sanitizeMembers] at h
    split_ifs at h with hscoped
    · exact List.mem_cons_of_mem _ (ih h)
    · rcases List.mem_cons.mp h with rfl | h
      · exact List.mem_cons_self ..
      · exact List.mem_cons_of_mem _ (ih h)

mutual

theorem freezable_sanitize : (value : Json) → freezable value = true →
    freezable (sanitizeConfigValue value) = true
  | .null, _ => rfl
  | .bool _, _ => rfl
  | .int _, _ => rfl
  | .float _, h => h
  | .str _, _ => rfl
  | .arr items, h => freezableItems_sanitize items h
  | .obj members, h => freezableMembers_sanitize members h

theorem freezableMembers_sanitize : (members : List (String × Json)) →
    freezableMembers members = true → freezableMembers (sanitizeMembers members) = true
  | [], _ => rfl
  | (key, value) :: rest, h => by
    rw [freezableMembers, Bool.and_eq_true] at h
    rw [sanitizeMembers]
    split_ifs with hscoped
    · exact freezableMembers_sanitize rest h.2
    · rw [freezableMembers, Bool.and_eq_true]
      exact ⟨freezable_sanitize value h.1, freezableMembers_sanitize rest h.2⟩

theorem freezableItems_sanitize : (items : List Json) →
    freezableItems items = true → freezableItems (sanitizeItems items) = true
  | [], _ => rfl
  | value :: rest, h => by
    rw [freezableItems, Bool.and_eq_true] at h
    rw [sanitizeItems, freezableItems, Bool.and_eq_true]
    exact ⟨freezable_sanitize value h.1, freezableItems_sanitize rest h.2⟩

end

end Configurations

section Stripping

/-- What stripping leaves of a valid document: every link starts at a node. -/
def stripped (document : GraphDocument) : GraphDocument :=
  { document with nodes := document.nodes.map sanitizeNode, origins := [] }

def strippedGraph (graph : GraphDefinition) : GraphDefinition :=
  { graph with document := stripped graph.document }

variable {destination : String → Option String} {document : GraphDocument}

theorem nodeIds_stripped (document : GraphDocument) :
    nodeIds (stripped document) = nodeIds document := by
  simp [nodeIds, stripped, sanitizeNode, Function.comp_def]

theorem plugOf_stripped (document : GraphDocument) (node plug : String) :
    plugOf (stripped document) node plug = plugOf document node plug := by
  unfold plugOf stripped
  rw [List.find?_map]
  have hid : ((fun n : GraphNode => decide (n.id = node)) ∘ sanitizeNode) =
      fun n => decide (n.id = node) := rfl
  rw [hid]
  cases document.nodes.find? (fun n => n.id = node) <;> rfl

theorem checkEdge_stripped (document : GraphDocument) (slots : Slots) (edge : GraphEdge) :
    checkEdge (stripped document) slots edge = checkEdge document slots edge := by
  unfold checkEdge
  rw [nodeIds_stripped]
  simp only [plugOf_stripped]

theorem checkPlugs_stripped {r : List Unit} (h : document.nodes.mapM checkPlugs = .ok r) :
    (stripped document).nodes.mapM checkPlugs = .ok r := by
  rw [stripped, List.mapM_map]
  exact h

theorem validateStructure_stripped (h : validateStructure document = .ok ()) :
    validateStructure (stripped document) = .ok () := by
  obtain ⟨hagents, hnodes, hedgeIds, -, ⟨r, hplugs⟩, ⟨slots, -, hedges, -⟩, ⟨u, hlinks⟩⟩ :=
    validateStructure_ok.mp h
  have hedge : checkEdge (stripped document) = checkEdge document := by
    funext slots edge
    exact checkEdge_stripped document slots edge
  have hlink : checkLink (stripped document) = checkLink document := by
    funext link
    rw [checkLink, checkLink, nodeIds_stripped]
  rw [validateStructure_ok]
  refine ⟨hagents, ?_, hedgeIds, List.nodup_nil, ⟨r, checkPlugs_stripped hplugs⟩, ⟨slots, slots, ?_,
    rfl⟩, ⟨u, ?_⟩⟩
  · rw [nodeIds_stripped]
    exact hnodes
  · rw [hedge]
    exact hedges
  · rw [hlink]
    exact hlinks

theorem sanitizeDocument_ok (h : DocumentOk destination document) :
    sanitizeDocument document = .ok (stripped document) := by
  have hnodes : (document.nodes.map sanitizeNode).map GraphNode.id = nodeIds document :=
    nodeIds_stripped document
  have hlinks : document.presentation.links.filter (fun link =>
      decide (link.sourceNodeId ∈ (document.nodes.map sanitizeNode).map GraphNode.id)) =
      document.presentation.links := by
    refine List.filter_eq_self.mpr ?_
    intro link hlink
    rw [hnodes]
    exact decide_eq_true (validateStructure_links h.rules link hlink)
  unfold sanitizeDocument
  refine bind_ok.mpr ⟨document.presentation, buildPresentation_ok.mpr ?_, ?_⟩
  · rw [hlinks]
    exact ⟨h.presentation.rules, rfl⟩
  · exact buildDocument_ok.mpr ⟨validateStructure_stripped h.rules, rfl⟩

end Stripping

section Interfaces

theorem not_references {key : String} (h : key ∉ ["artifact_id", "upload_key", "uploads"]) :
    ∀ value, ¬ References key value := by
  intro value hrefers
  apply h
  rcases hrefers with rfl | rfl | ⟨rfl, -⟩ <;> simp

theorem publicName_sanitizeNode (node : GraphNode) :
    publicName (sanitizeNode node) = publicName node := by
  unfold publicName sanitizeNode
  rw [get?_sanitizeMembers (not_references (by decide))]
  cases hget : node.config.get? "public_name" with
  | none => rfl
  | some value => cases value <;> simp [sanitizeConfigValue]

theorem isBoolean_sanitize (held : Option Json) :
    isBoolean (held.map sanitizeConfigValue) = isBoolean held := by
  cases held with
  | none => rfl
  | some value => cases value <;> simp [sanitizeConfigValue, isBoolean]

theorem isText_sanitize (held : Option Json) :
    isText (held.map sanitizeConfigValue) = isText held := by
  cases held with
  | none => rfl
  | some value => cases value <;> simp [sanitizeConfigValue, isText]

theorem interfaceSlot_sanitizeNode (node : GraphNode) :
    interfaceSlot (sanitizeNode node) = interfaceSlot node := by
  rw [interfaceSlot, interfaceSlot, publicName_sanitizeNode]
  rfl

theorem checkBoundary_sanitizeNode {graphId : String}
    {names names' : Dict (Direction × String) String}
    {node : GraphNode} (h : checkBoundary graphId names node = .ok names') :
    checkBoundary graphId names (sanitizeNode node) = .ok names' := by
  have hboundary : isBoundary (sanitizeNode node) = isBoundary node := rfl
  have hrequired : Dict.get? (sanitizeNode node).config "required" =
      (node.config.get? "required").map sanitizeConfigValue :=
    get?_sanitizeMembers (not_references (by decide)) _
  have hdescription : Dict.get? (sanitizeNode node).config "description" =
      (node.config.get? "description").map sanitizeConfigValue :=
    get?_sanitizeMembers (not_references (by decide)) _
  have hdirection : directionOf (sanitizeNode node) = directionOf node := rfl
  unfold checkBoundary at h ⊢
  rw [hboundary]
  split_ifs at h ⊢ with hyes
  · obtain ⟨_, hkind, h⟩ := bind_ok.mp h
    obtain ⟨_, hversion, h⟩ := bind_ok.mp h
    obtain ⟨_, hkeys, h⟩ := bind_ok.mp h
    obtain ⟨_, hname, h⟩ := bind_ok.mp h
    obtain ⟨_, houtput, h⟩ := bind_ok.mp h
    obtain ⟨_, hboolean, h⟩ := bind_ok.mp h
    obtain ⟨_, htext, h⟩ := bind_ok.mp h
    obtain ⟨_, hfree, h⟩ := bind_ok.mp h
    simp only [interfaceSlot_sanitizeNode, publicName_sanitizeNode, hrequired, hdescription,
      hdirection, isBoolean_sanitize, isText_sanitize, Option.isSome_map]
    have hkeys' : (Dict.keys (sanitizeNode node).config).filter
        (· ∉ ["public_name", "required", "description"]) = [] := by
      refine List.filter_eq_nil_iff.mpr ?_
      intro key hkey
      exact List.filter_eq_nil_iff.mp (require_ok.mp hkeys) key (mem_keys_sanitizeMembers hkey)
    exact bind_ok.mpr ⟨_, hkind, bind_ok.mpr ⟨_, hversion, bind_ok.mpr ⟨(), require_ok.mpr hkeys',
      bind_ok.mpr ⟨_, hname, bind_ok.mpr ⟨_, houtput, bind_ok.mpr ⟨_, hboolean, bind_ok.mpr
        ⟨_, htext, bind_ok.mpr ⟨_, hfree, h⟩⟩⟩⟩⟩⟩⟩⟩
  · exact h

theorem validateGraph_stripped {graph : GraphDefinition} (h : validateGraph graph = .ok ()) :
    validateGraph (strippedGraph graph) = .ok () := by
  unfold validateGraph at h ⊢
  obtain ⟨r, hrefresh, h⟩ := bind_ok.mp h
  obtain ⟨names, hnames, h⟩ := bind_ok.mp h
  have hcheck : checkRefreshNode (strippedGraph graph) = checkRefreshNode graph := by
    funext nodeId
    unfold checkRefreshNode strippedGraph
    rw [nodeIds_stripped]
  refine bind_ok.mpr ⟨r, ?_, bind_ok.mpr ⟨names, ?_, h⟩⟩
  · rw [hcheck]
    exact hrefresh
  · change (graph.document.nodes.map sanitizeNode).foldlM (checkBoundary graph.id) [] = .ok names
    rw [List.foldlM_map]
    exact foldlM_imp (fun _ _ _ => checkBoundary_sanitizeNode) hnames

end Interfaces

section Projects

variable {destination : String → Option String} {casefold : String → String}
  {project : ProjectDocument} {graph : GraphDefinition}

theorem checkNames_stripped (taken : Taken) (graph : GraphDefinition) :
    checkNames casefold taken (strippedGraph graph) = checkNames casefold taken graph := rfl

theorem calledIds_stripped (graph : GraphDefinition) :
    calledIds (strippedGraph graph) = calledIds graph := by
  change ((graph.document.nodes.map sanitizeNode).filter isCall).map GraphNode.operatorId = _
  rw [List.filter_map, List.map_map]
  rfl

theorem ids_stripped (graphs : List GraphDefinition) :
    (graphs.map strippedGraph).map GraphDefinition.id = graphs.map GraphDefinition.id := by
  rw [List.map_map]
  rfl

theorem callees_stripped (graphs : List GraphDefinition) :
    callees (graphs.map strippedGraph) = callees graphs := by
  have hcalled :
    ∀ id, ((graphs.map strippedGraph).filter (fun graph => graph.id = id)).flatMap calledIds =
      (graphs.filter (fun graph => graph.id = id)).flatMap calledIds := by
    intro id
    rw [List.filter_map, List.flatMap_map]
    exact congrArg (List.flatMap · _) (funext calledIds_stripped)
  unfold callees
  simp only [ids_stripped, hcalled]

theorem checkProject_stripped (graphs : List GraphDefinition) :
    checkProject casefold (graphs.map strippedGraph) = checkProject casefold graphs := by
  have hcalls : ∀ ids graph, (strippedGraph graph).document.nodes.mapM
      (checkCall ids (strippedGraph graph)) = graph.document.nodes.mapM (checkCall ids graph) := by
    intro ids graph
    change (graph.document.nodes.map sanitizeNode).mapM _ = _
    rw [List.mapM_map]
    rfl
  unfold checkProject
  rw [List.foldlM_map, List.mapM_map, callees_stripped, ids_stripped]
  simp only [checkNames_stripped, Function.comp_def, hcalls]

theorem sanitizeGraph_ok (h : GraphOk destination graph) :
    sanitizeGraph graph = .ok (strippedGraph graph) :=
  bind_ok.mpr ⟨_, sanitizeDocument_ok h.document, buildGraph_ok.mpr
    ⟨validateGraph_stripped h.rules, rfl⟩⟩

theorem sanitizeProject_ok (h : ProjectOk destination casefold project) :
    sanitizeProject casefold project = .ok ⟨project.graphs.map strippedGraph⟩ := by
  refine bind_ok.mpr ⟨project.graphs.map strippedGraph, ?_, rebuild_ok.mpr ⟨?_, rfl⟩⟩
  · exact mapM_eq_map (fun graph hgraph => sanitizeGraph_ok (h.graphs graph hgraph))
  · rw [checkProject_stripped]
    exact h.rules

theorem GraphOk.stripped (h : GraphOk destination graph) :
    GraphOk destination (strippedGraph graph) := by
  have hdocument := h.document
  refine ⟨h.id, h.name, { hdocument with
    nodes := ?_, origins := by simp [strippedGraph, CrossWorkspaceCopies.stripped]
    rules := validateStructure_stripped hdocument.rules }, validateGraph_stripped h.rules⟩
  intro node hnode
  obtain ⟨held, hheld, rfl⟩ := List.mem_map.mp hnode
  exact { hdocument.nodes held hheld with }

theorem ProjectOk.stripped (h : ProjectOk destination casefold project) :
    ProjectOk destination casefold ⟨project.graphs.map strippedGraph⟩ := by
  refine ⟨?_, (checkProject_stripped _).trans h.rules⟩
  intro graph hgraph
  obtain ⟨held, hheld, rfl⟩ := List.mem_map.mp hgraph
  exact GraphOk.stripped (h.graphs held hheld)

theorem storable_stripped (h : StorableProject project) :
    StorableProject ⟨project.graphs.map strippedGraph⟩ := by
  intro graph hgraph
  obtain ⟨held, hheld, rfl⟩ := List.mem_map.mp hgraph
  refine ⟨?_, (h held hheld).2⟩
  intro node hnode
  obtain ⟨source, hsource, rfl⟩ := List.mem_map.mp hnode
  exact freezableMembers_sanitize source.config ((h held hheld).1 source hsource)

theorem sanitizeNode_same {n m : GraphNode} (h : ∃ config, SameMembers n.config config ∧
    m = { n with config := config }) : sanitizeNode n = sanitizeNode m := by
  obtain ⟨config, hconfig, rfl⟩ := h
  unfold sanitizeNode
  rw [sanitizeMembers_same hconfig]

/-- Viewers that differ only in their references are the same once these are. -/
theorem viewers_eq_iff {l r : List GraphPresentationViewer}
    (h : List.Forall₂ (fun v w => ∃ ref, w = { v with artifactRef := ref }) l r) :
    l = r ↔ l.map GraphPresentationViewer.artifactRef =
      r.map GraphPresentationViewer.artifactRef := by
  induction h with
  | nil => simp
  | cons hvw _ ih =>
    obtain ⟨ref, rfl⟩ := hvw
    simp only [List.cons.injEq, List.map_cons, ih]
    refine and_congr_left' ⟨congrArg GraphPresentationViewer.artifactRef, ?_⟩
    rintro rfl
    rfl

theorem strippedGraph_eq_iff {a b : GraphDefinition} (h : SameGraph a b) :
    strippedGraph a = strippedGraph b ↔ cardsOf a = cardsOf b := by
  have hnodes : a.document.nodes.map sanitizeNode = b.document.nodes.map sanitizeNode :=
    Alignment.map_eq h.document.nodes (fun _ _ => sanitizeNode_same)
  rw [cardsOf, cardsOf, ← viewers_eq_iff h.document.viewers]
  constructor
  · intro heq
    exact congrArg (fun graph => graph.document.presentation.viewers) heq
  · intro heq
    unfold strippedGraph CrossWorkspaceCopies.stripped
    rw [h.id, h.name, h.refreshGenerations, hnodes, h.document.agents, h.document.edges]
    have hpresentation : a.document.presentation = b.document.presentation := by
      cases ha : a.document.presentation
      cases hb : b.document.presentation
      have hlinks := h.document.links
      have hbindings := h.document.bindings
      have hannotations := h.document.annotations
      simp_all
    rw [hpresentation]

theorem strippedGraphs_eq_iff {l r : List GraphDefinition} (h : List.Forall₂ SameGraph l r) :
    l.map strippedGraph = r.map strippedGraph ↔ l.map cardsOf = r.map cardsOf := by
  induction h with
  | nil => simp
  | cons hab _ ih =>
    simp only [List.map_cons, List.cons.injEq]
    exact and_congr (strippedGraph_eq_iff hab) ih

/-- Every valid document has a valid copy. Of two documents that differ only in
references the copies are the same exactly when their artifact cards show the
same artifacts. -/
theorem copies_equal_iff {a b : ProjectDocument} (ha : ProjectOk destination casefold a)
    (hb : ProjectOk destination casefold b) (h : SameProject a b) :
    ∃ copy copy', sanitizeProject casefold a = .ok copy ∧ sanitizeProject casefold b = .ok copy' ∧
      (ProjectOk destination casefold copy ∧ (StorableProject a → StorableProject copy)) ∧
      (ProjectOk destination casefold copy' ∧ (StorableProject b → StorableProject copy')) ∧
      (copy = copy' ↔ cards a = cards b) := by
  refine ⟨_, _, sanitizeProject_ok ha, sanitizeProject_ok hb,
    ⟨ProjectOk.stripped ha, storable_stripped⟩,
    ⟨ProjectOk.stripped hb, storable_stripped⟩, ?_⟩
  rw [ProjectDocument.mk.injEq]
  exact strippedGraphs_eq_iff h

end Projects

section Leaks

/-- A viewer that shows one artifact. -/
def artifactCard (artifactId : String) : GraphPresentationViewer :=
  ⟨"artifact-viewer-1", default, none, none, some (.ref ⟨artifactId, "text", 1, none⟩)⟩

/-- One node that reads an upload, beside one artifact card. -/
def cardGraph (upload artifactId : String) : GraphDefinition :=
  ⟨"main", "Main", ⟨[], [⟨.builtin, "load", "files.load", 1,
    [("source", .obj [("upload_key", .str upload)])], default, none, [], []⟩], [], [],
    ⟨[artifactCard artifactId], [], [], []⟩⟩, []⟩

def cardProject (upload artifactId : String) : ProjectDocument := ⟨[cardGraph upload artifactId]⟩

def firstArtifact : String := "11111111-1111-4111-8111-111111111111"

def secondArtifact : String := "22222222-2222-4222-8222-222222222222"

theorem cardProject_ok (upload : String) {artifactId : String}
    (h : artifactId ∈ [firstArtifact, secondArtifact]) :
    ProjectOk knownDestination id (cardProject upload artifactId) := by
  have hid : ∀ text ∈ ["main", "load", "files.load"], Identifier text := by
    unfold Identifier TrimmedTo
    decide
  have hname : TrimmedTo graphNameMaxLength "Main" := by
    unfold TrimmedTo
    decide
  have hviewer : PrefixedBy "artifact-viewer-" "artifact-viewer-1" := by
    unfold PrefixedBy Identifier TrimmedTo
    decide
  have huuid : ∀ text ∈ [firstArtifact, secondArtifact], isUuid text := by
    decide
  have hrules : checkProject id [cardGraph upload artifactId] = .ok () := by
    rfl
  refine ⟨?_, hrules⟩
  simp only [cardProject, List.forall_mem_singleton]
  refine ⟨hid "main" (by simp), hname, ⟨by simp [cardGraph], ?_, by simp [cardGraph],
    by simp [cardGraph], ?_, rfl⟩, rfl⟩
  · simp only [cardGraph, List.forall_mem_singleton]
    exact ⟨hid "load" (by simp), hid "files.load" (by simp), Nat.le_refl 1, ⟨rfl, rfl⟩, by simp,
      by simp, by simp, by simp⟩
  · refine ⟨?_, by simp [cardGraph], by simp [cardGraph], by simp [cardGraph], rfl⟩
    simp only [cardGraph, List.forall_mem_singleton]
    exact ⟨hviewer, ⟨rfl, rfl⟩, by simp [artifactCard], by simp [artifactCard],
      by simpa [artifactCard, OutputOk, RefOk] using huuid artifactId h⟩

theorem cardProject_same (upload upload' artifactId artifactId' : String) :
    SameProject (cardProject upload artifactId) (cardProject upload' artifactId') := by
  refine .cons ⟨rfl, rfl, ⟨rfl, .cons ⟨_, ?_, rfl⟩ .nil, rfl, .nil, .cons ⟨_, rfl⟩ .nil, rfl, rfl,
    rfl⟩, rfl⟩
    .nil
  have hupload : ∀ value, References "upload_key" value := fun _ => Or.inr (Or.inl rfl)
  exact .both "source" (.obj (.left (hupload _) (.right (hupload _) .nil))) .nil

/-- The upload a node reads leaves no trace in the copy. -/
theorem uploads_copied_alike : ∃ copy,
    sanitizeProject id (cardProject "monday.csv" firstArtifact) = .ok copy ∧
      sanitizeProject id (cardProject "friday.csv" firstArtifact) = .ok copy ∧
      ProjectOk knownDestination id copy := by
  obtain ⟨copy, copy', hcopy, hcopy', ⟨hok, -⟩, -, hiff⟩ := copies_equal_iff
    (cardProject_ok "monday.csv" (by simp)) (cardProject_ok "friday.csv" (by simp))
    (cardProject_same "monday.csv" "friday.csv" firstArtifact firstArtifact)
  obtain rfl := hiff.mpr rfl
  exact ⟨copy, hcopy, hcopy', hok⟩

/-- The artifact a card shows is copied with the card. -/
theorem cards_copied_apart :
    let a := cardProject "monday.csv" firstArtifact
    let b := cardProject "monday.csv" secondArtifact
    ProjectOk knownDestination id a ∧ ProjectOk knownDestination id b ∧ SameProject a b ∧
      ¬ ∃ copy, sanitizeProject id a = .ok copy ∧ sanitizeProject id b = .ok copy := by
  have ha :=
    cardProject_ok "monday.csv" (List.mem_cons_self (a := firstArtifact) (l := [secondArtifact]))
  have hb := cardProject_ok "monday.csv" (List.mem_cons_of_mem firstArtifact
    (List.mem_singleton_self secondArtifact))
  refine ⟨ha, hb, cardProject_same _ _ _ _, ?_⟩
  rintro ⟨copy, hcopy, hcopy'⟩
  rw [sanitizeProject_ok ha] at hcopy
  rw [sanitizeProject_ok hb] at hcopy'
  have hsame := Except.ok.inj (hcopy.trans hcopy'.symm)
  have hcards := (strippedGraphs_eq_iff (cardProject_same "monday.csv" "monday.csv" firstArtifact
    secondArtifact)).mp (congrArg ProjectDocument.graphs hsame)
  simp [cardProject, cardsOf, cardGraph, artifactCard, firstArtifact, secondArtifact] at hcards

end Leaks

end Grafy.CrossWorkspaceCopies
