import Grafy.Renaming

/-!
Two calls of one Graph. When the call sites supply every declared input of
the callee alike, the instances at the same path beneath the two calls have
equal fingerprints, provided the callee's own default origins are kept or
dropped alike at the two sites. An edge drawn at a port drops the defaults
even when its source does not resolve and it supplies nothing.
-/
namespace Grafy.CallSharing

open DocumentRules Expansion Fingerprints GraphDocuments Instances OrderedDict Project Renaming
  Results

section Sharing

variable (project : ProjectDocument) (projectId : String) (fps : Dict InstanceKey Fingerprint)
  (callee : GraphDefinition) (site site' : Site)

/-- Two call sites that supply an input of the callee alike: connections of
equal transport from sources of equal fingerprints, and equal origins. -/
structure SupplyEqual (node : GraphNode) : Prop where
  connections : List.Forall₂ (fun c c' => SameTransport c.edge c'.edge ∧
      fps.get? c.source = fps.get? c'.source)
    (callerConnections project projectId (some site) node)
    (callerConnections project projectId (some site') node)
  origins : List.Forall₂ SameSupply (callerOrigins (some site) node)
    (callerOrigins (some site') node)

/-- Where an input of the callee has origins of its own, both call sites draw
something at its port or neither does. -/
def DefaultsAlike : Prop :=
  ∀ node ∈ callee.document.nodes, isInput node → drawnOrigins ⟨callee, []⟩ (atNode node) ≠ [] →
    callerDraws (some site) node = callerDraws (some site') node

/-- The instances at the same path beneath the two calls share a fingerprint. -/
def SharedBeneath : Prop :=
  ∀ path graph node, Calls project callee path graph → node ∈ graph.document.nodes →
    isCall node = false →
    ∃ f, fps.get? (keyAt projectId graph (site.callPath ++ path) node) = some f ∧
      fps.get? (keyAt projectId graph (site'.callPath ++ path) node) = some f

end Sharing

variable {project : ProjectDocument} {callee graph : GraphDefinition}

section Identity

theorem graphRenames_refl (graph : GraphDefinition) : GraphRenames id graph graph := by
  refine ⟨rfl, fun _ _ _ _ h => h, List.forall₂_same.mpr ?_, List.forall₂_same.mpr ?_,
    List.forall₂_same.mpr ?_, fun _ _ => rfl⟩
  · intro node _
    exact ⟨rfl, rfl, rfl, rfl, rfl, rfl, rfl⟩
  · intro edge _
    exact ⟨rfl, rfl, rfl, rfl, rfl, rfl, rfl, rfl, rfl⟩
  · intro origin _
    exact ⟨rfl, rfl, rfl, rfl, rfl, rfl⟩

/-- Every document renames itself, so two occurrences of one Graph pair up. -/
theorem pairing_of_callee (hwf : WellFormed project) (hcallee : callee ∈ project.graphs)
    (path path' : List String) :
    Pairing (fun _ => id) project project ⟨callee, path⟩ ⟨callee, path'⟩ :=
  ⟨List.forall₂_same.mpr (fun graph _ => graphRenames_refl graph), hwf, graphRenames_refl callee,
    hcallee, hcallee⟩

theorem matched_of_calls {start start' path : List String} (h : Calls project callee path graph) :
    Matched (fun _ => id) project project ⟨callee, start⟩ ⟨callee, start'⟩
      ⟨graph, start ++ path⟩ ⟨graph, start' ++ path⟩ := by
  induction h with
  | here => simpa using Matched.start
  | call _ hnode hcall hcallee ih =>
    have hdeeper := ih.call hnode hcall hnode ⟨rfl, rfl, rfl, rfl, rfl, rfl, rfl⟩ hcallee hcallee
    simpa using hdeeper

theorem eq_of_nodeRenames (hwf : WellFormed project) (hgraph : graph ∈ project.graphs)
    {node node' : GraphNode} (hnode : node ∈ graph.document.nodes)
    (hnode' : node' ∈ graph.document.nodes) (h : NodeRenames id node node') : node = node' :=
  List.inj_on_of_nodup_map (hwf.anchored graph hgraph).nodeIds hnode hnode' h.id.symm

end Identity

variable {fps : Dict InstanceKey Fingerprint}

section Calls

variable {target : GraphDefinition} {projectId : String} {expanded : ExpandedGraph}
  {site site' : Site} {facts : FingerprintFacts} {sha256 : String → Fingerprint}

theorem sameFacts_of_secrets (hwf : WellFormed project) {start start' : Visit}
    (pairing : Pairing (fun _ => id) project project start start')
    (hsecrets : ∀ key key' : InstanceKey, key.graphId = key'.graphId → key.nodeId = key'.nodeId →
      facts.secretRevisions key = facts.secretRevisions key') :
    SameFacts (fun _ => id) project project start start' projectId projectId facts facts := by
  intro visit visit' node node' hmatched hnode _ hnode' hrenames
  have hgraphs := hmatched.graphs pairing.renames pairing.graphs
  obtain ⟨hgraph, hgraph'⟩ := hmatched.mem_graphs pairing.known pairing.known'
  have heq : visit.graph = visit'.graph :=
    List.inj_on_of_nodup_map hwf.ids hgraph hgraph' hgraphs.id.symm
  rw [← heq] at hnode'
  obtain rfl := eq_of_nodeRenames hwf hgraph hnode hnode' hrenames
  exact ⟨rfl, rfl, hsecrets _ _ hgraphs.id.symm rfl⟩

variable (hwf : WellFormed project) (hexp : Expands project target projectId expanded)
  (hfps : computeFingerprints sha256 expanded facts = .ok fps)
  (hsite : Placed project target (some site) ⟨callee, site.callPath⟩)
  (hsite' : Placed project target (some site') ⟨callee, site'.callPath⟩)
  (hinputs : ∀ node ∈ callee.document.nodes, isInput node →
    SupplyEqual project projectId fps site site' node)
include hwf hexp hfps hsite hsite' hinputs

theorem shared_of_defaultsAlike (hknown : callee ∈ project.graphs)
    (hsecrets : ∀ key key' : InstanceKey, key.graphId = key'.graphId → key.nodeId = key'.nodeId →
      facts.secretRevisions key = facts.secretRevisions key')
    (hdefaults : DefaultsAlike callee site site') :
    SharedBeneath project projectId fps callee site site' := by
  have pairing := pairing_of_callee hwf hknown site.callPath site'.callPath
  intro path graph node hcalls hnode hcall
  refine counterpart_fingerprints pairing hexp hexp hsite hsite'
    (sameFacts_of_secrets hwf pairing hsecrets) hfps hfps ?_
    (.intro (matched_of_calls hcalls) hnode hcall hnode ⟨rfl, rfl, rfl, rfl, rfl, rfl, rfl⟩)
  intro boundary boundary' hboundary hboundary' hrenames
  obtain rfl := eq_of_nodeRenames hwf hknown hboundary hboundary' hrenames
  cases hinput : isInput boundary with
  | true =>
    have hequal := hinputs boundary hboundary hinput
    exact ⟨hequal.connections, hequal.origins, hdefaults boundary hboundary hinput⟩
  | false =>
    -- only an input boundary is fed from a call site
    have hnever : ∀ s : Site, atSite s boundary = fun _ _ => false := by
      intro s
      funext toNode toPort
      simp [atSite, hinput]
    have hnothing : ∀ s : Site, callerDraws (some s) boundary = false := by
      intro s
      simp [callerDraws, drawn, hnever, Bool.or_eq_false_iff, List.any_eq_false]
    refine ⟨?_, ?_, fun _ => (hnothing site).trans (hnothing site').symm⟩
    · simp [callerConnections, drawnConnections, hnever]
    · simp [callerOrigins, drawnOrigins, hnever]

/-- Equal documents have equally many origins, so defaults dropped at one of
the sites only would show. -/
theorem defaultsAlike_of_shared (hknown : callee ∈ project.graphs)
    (hfree : Set.InjOn sha256 (documentTexts expanded facts fps))
    (hshared : SharedBeneath project projectId fps callee site site') :
    DefaultsAlike callee site site' := by
  intro node hnode hinput hown
  have hcall := isCall_of_boundary hwf hknown hnode (Or.inl hinput)
  obtain ⟨f, hf, hf'⟩ := hshared [] callee node .here hnode hcall
  rw [List.append_nil] at hf hf'
  have hfingerprinted := (computeFingerprints_ok hfps).1
  obtain ⟨inst, pairs, hinst, hreads, rfl⟩ := hfingerprinted.get hf
  obtain ⟨inst', pairs', hinst', hreads', heq⟩ := hfingerprinted.get hf'
  have htext : documentText facts inst pairs = documentText facts inst' pairs' :=
    hfree ⟨_, inst, pairs, hinst, hreads, rfl⟩ ⟨_, inst', pairs', hinst', hreads', rfl⟩ heq
  obtain ⟨-, -, horigins⟩ := same_of_documentText_eq htext
  rw [hexp.get hsite hnode hcall] at hinst
  rw [hexp.get hsite' hnode hcall] at hinst'
  cases hinst
  cases hinst'
  have hlength := horigins.length_eq
  have hcaller := (hinputs node hnode hinput).origins.length_eq
  have hlonger : 0 < (drawnOrigins ⟨callee, []⟩ (atNode node)).length :=
    List.length_pos_iff.mpr hown
  simp only [sortedOrigins, List.length_insertionSort, instanceOf, draftInstance,
    List.length_append, List.length_map, drawnOrigins] at hlength hcaller hlonger
  cases hdraws : callerDraws (some site) node <;> cases hdraws' : callerDraws (some site') node
  · rfl
  · simp [hdraws, hdraws'] at hlength
    omega
  · simp [hdraws, hdraws'] at hlength
    omega
  · rfl

end Calls

/-- Two calls that supply every declared input of their callee alike share all
fingerprints beneath the callee when its defaults are kept or dropped alike at
the two sites, and, without a collision, only then. -/
theorem calls_share_iff {casefold : String → String} {project : ProjectDocument}
    {graphId projectId : String} {target callee : GraphDefinition} {expanded : ExpandedGraph}
    {site site' : Site} {facts : FingerprintFacts} {sha256 : String → Fingerprint}
    {fps : Dict InstanceKey Fingerprint} (hvalid : project.Valid casefold)
    (htarget : project.getGraph graphId = some target)
    (hexpand : expandGraph project graphId projectId = .ok expanded)
    (hfps : computeFingerprints sha256 expanded facts = .ok fps)
    (hsecrets : ∀ key key' : InstanceKey, key.graphId = key'.graphId → key.nodeId = key'.nodeId →
      facts.secretRevisions key = facts.secretRevisions key')
    (hsite : Placed project target (some site) ⟨callee, site.callPath⟩)
    (hsite' : Placed project target (some site') ⟨callee, site'.callPath⟩)
    (hinputs : ∀ node ∈ callee.document.nodes, isInput node →
      SupplyEqual project projectId fps site site' node) :
    (DefaultsAlike callee site site' → SharedBeneath project projectId fps callee site site') ∧
      (Set.InjOn sha256 (documentTexts expanded facts fps) →
        SharedBeneath project projectId fps callee site site' →
          DefaultsAlike callee site site') := by
  have hwf := hvalid.wellFormed
  obtain ⟨target', htarget', hexp⟩ := expandGraph_ok hwf hexpand
  cases htarget.symm.trans htarget'
  have hknown : callee ∈ project.graphs :=
    hsite.calls.mem_graphs (List.mem_of_find?_eq_some htarget)
  exact ⟨shared_of_defaultsAlike hwf hexp hfps hsite hsite' hinputs hknown hsecrets,
    defaultsAlike_of_shared hwf hexp hfps hsite hsite' hinputs hknown⟩

section Example

/-- A Graph whose one input has a default. -/
def passGraph : GraphDefinition :=
  ⟨"pass", "Pass", ⟨[],
    [⟨.builtin, "in", "graph.input", 1, [("public_name", .str "x")], default, none, [], []⟩], [],
    [⟨"o", "in", "value", none, .ref ⟨"artifact", "table", 1, none⟩, .direct, []⟩],
    ⟨[], [], [], []⟩⟩, []⟩

/-- A Graph that declares no output. -/
def muteGraph : GraphDefinition := ⟨"mute", "Mute", ⟨[], [], [], [], ⟨[], [], [], []⟩⟩, []⟩

def callOf (id graph : String) : GraphNode := ⟨.call, id, graph, 1, [], default, none, [], []⟩

def mainGraph (edges : List GraphEdge) : GraphDefinition :=
  ⟨"main", "Main", ⟨[], [⟨.builtin, "l", "load", 1, [], default, none, [], []⟩, callOf "a" "pass",
    callOf "b" "pass", callOf "e" "mute"], edges, [], ⟨[], [], [], []⟩⟩, []⟩

def sharingProject (edges : List GraphEdge) : ProjectDocument :=
  ⟨[passGraph, muteGraph, mainGraph edges]⟩

def edgeTo (id source port target : String) : GraphEdge :=
  ⟨id, true, source, port, target, "x", none, .direct, none, [], none⟩

/-- Both calls read the loading node. -/
def fedAlike : List GraphEdge := [edgeTo "1" "l" "data" "a", edgeTo "2" "l" "data" "b"]

/-- One call reads an output that its source does not declare. -/
def fedByNothing : List GraphEdge := [edgeTo "1" "e" "missing" "a"]

def siteOf (edges : List GraphEdge) (id : String) : Site :=
    ⟨⟨mainGraph edges, []⟩, callOf id "pass"⟩

variable {edges : List GraphEdge}

theorem sharingProject_valid (hstructure : validateStructure (mainGraph edges).document = .ok ())
    (hproject : checkProject id (sharingProject edges).graphs = .ok ()) :
    (sharingProject edges).Valid id := by
  refine ⟨?_, ?_, hproject⟩
  · simp only [sharingProject, List.forall_mem_cons, List.not_mem_nil, IsEmpty.forall_iff,
      implies_true, and_true]
    exact ⟨by decide, by decide, hstructure⟩
  · simp only [sharingProject, List.forall_mem_cons, List.not_mem_nil, IsEmpty.forall_iff,
      implies_true, and_true]
    exact ⟨by decide, by decide, by rfl⟩

theorem placed_siteOf (edges : List GraphEdge) {id : String} (hid : id = "a" ∨ id = "b") :
    Placed (sharingProject edges) (mainGraph edges) (some (siteOf edges id))
      ⟨passGraph, (siteOf edges id).callPath⟩ := by
  rcases hid with rfl | rfl
  · exact .called .here (by simp [siteOf, mainGraph]) rfl rfl
  · exact .called .here (by simp [siteOf, mainGraph]) rfl rfl

theorem exists_expanded (hvalid : (sharingProject edges).Valid id)
    (hok : (expandGraph (sharingProject edges) "main" "p").isOk) : ∃ expanded fps,
    expandGraph (sharingProject edges) "main" "p" = .ok expanded ∧
      computeFingerprints id expanded plainFacts = .ok fps := by
  cases hexpand : expandGraph (sharingProject edges) "main" "p" with
  | error e => simp [hexpand, Except.isOk, Except.toBool] at hok
  | ok expanded =>
    obtain ⟨target, -, hexp⟩ := expandGraph_ok hvalid.wellFormed hexpand
    obtain ⟨fps, hfps⟩ := computeFingerprints_exists id plainFacts hexp.topological hexp.closed
    exact ⟨expanded, fps, rfl, hfps⟩

theorem inputs_of_supplyEqual
    (h : SupplyEqual (sharingProject edges) "p" fps (siteOf edges "a") (siteOf edges "b") ⟨.builtin,
      "in", "graph.input", 1, [("public_name", .str "x")], default, none, [], []⟩) :
    ∀ node ∈ passGraph.document.nodes, isInput node →
      SupplyEqual (sharingProject edges) "p" fps (siteOf edges "a") (siteOf edges "b") node := by
  intro node hnode _
  obtain rfl := List.mem_singleton.mp hnode
  exact h

theorem fedAlike_shared : ∃ expanded fps,
    expandGraph (sharingProject fedAlike) "main" "p" = .ok expanded ∧
      computeFingerprints id expanded plainFacts = .ok fps ∧
      SharedBeneath (sharingProject fedAlike) "p" fps passGraph (siteOf fedAlike "a")
        (siteOf fedAlike "b") := by
  have hvalid : (sharingProject fedAlike).Valid id :=
    sharingProject_valid (by decide) (by decide)
  obtain ⟨expanded, fps, hexpand, hfps⟩ := exists_expanded hvalid (by decide)
  refine ⟨expanded, fps, hexpand, hfps, ?_⟩
  refine (calls_share_iff hvalid rfl hexpand hfps (fun _ _ _ _ => rfl)
    (placed_siteOf fedAlike (Or.inl rfl)) (placed_siteOf fedAlike (Or.inr rfl))
    (inputs_of_supplyEqual ⟨?_, ?_⟩)).1 ?_
  · exact .cons ⟨⟨rfl, rfl, rfl, rfl, rfl, rfl⟩, rfl⟩ .nil
  · exact .nil
  · intro node hnode _ _
    obtain rfl := List.mem_singleton.mp hnode
    decide

/-- Neither call is supplied with anything, and yet the default is read at one
of them only. -/
theorem fedByNothing_not_shared : (sharingProject fedByNothing).Valid id ∧ ∃ expanded fps,
    expandGraph (sharingProject fedByNothing) "main" "p" = .ok expanded ∧
      computeFingerprints id expanded plainFacts = .ok fps ∧
      Placed (sharingProject fedByNothing) (mainGraph fedByNothing) (some (siteOf fedByNothing "a"))
        ⟨passGraph, ["a"]⟩ ∧
      Placed (sharingProject fedByNothing) (mainGraph fedByNothing) (some (siteOf fedByNothing "b"))
        ⟨passGraph, ["b"]⟩ ∧
      (∀ node ∈ passGraph.document.nodes, isInput node →
        SupplyEqual (sharingProject fedByNothing) "p"
        fps (siteOf fedByNothing "a") (siteOf fedByNothing "b") node) ∧
      ¬ SharedBeneath (sharingProject fedByNothing) "p" fps passGraph (siteOf fedByNothing "a")
        (siteOf fedByNothing "b") := by
  have hvalid : (sharingProject fedByNothing).Valid id :=
    sharingProject_valid (by decide) (by decide)
  obtain ⟨expanded, fps, hexpand, hfps⟩ := exists_expanded hvalid (by decide)
  obtain ⟨target, htarget, hexp⟩ := expandGraph_ok hvalid.wellFormed hexpand
  obtain rfl : mainGraph fedByNothing = target := Option.some.inj htarget
  have hinputs : ∀ node ∈ passGraph.document.nodes, isInput node →
      SupplyEqual (sharingProject fedByNothing) "p" fps (siteOf fedByNothing "a")
        (siteOf fedByNothing "b") node := inputs_of_supplyEqual ⟨.nil, .nil⟩
  refine ⟨hvalid, expanded, fps, hexpand, hfps, placed_siteOf fedByNothing (Or.inl rfl),
    placed_siteOf fedByNothing (Or.inr rfl), hinputs, ?_⟩
  intro hshared
  have halike := defaultsAlike_of_shared hvalid.wellFormed hexp hfps
    (placed_siteOf fedByNothing (Or.inl rfl)) (placed_siteOf fedByNothing (Or.inr rfl)) hinputs
    (by simp [sharingProject]) Function.injective_id.injOn hshared _
      (List.mem_singleton.mpr rfl) rfl
    (by simp [drawnOrigins, passGraph, atNode])
  exact absurd halike (by decide)

end Example

end Grafy.CallSharing
