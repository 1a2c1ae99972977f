import Grafy.CallSharing

/-!
Defaults of a callee's inputs. The origins a callee holds on an input boundary
stand until the call site supplies that input. The wiring notes a supply as
soon as something enabled is drawn at the port, before it looks for the source,
so an edge that is then skipped, because its source is a call output which the
callee there does not declare, drops the defaults and puts nothing in their
place.
-/
namespace Grafy.CallSites

open CallSharing DocumentRules Expansion GraphDocuments Instances Project

variable {edge : GraphEdge} {toNode toPort : String} {node : GraphNode}

section Ends

/-- The node is a call whose callee declares no port of that name in this
direction. -/
def Undeclared (isPort : GraphNode → Bool) (project : ProjectDocument) (graph : GraphDefinition)
    (nodeId port : String) : Prop :=
  ∃ node ∈ graph.document.nodes, node.id = nodeId ∧ isCall node ∧
    ∃ callee, project.getGraph node.operatorId = some callee ∧
      ∀ boundary ∈ callee.document.nodes, isPort boundary → publicName boundary ≠ port

/-- An enabled edge is drawn at the port of the call, no origin is, and no
enabled edge there has a source: each starts at a call whose callee declares no
output of that name. -/
structure OnlyDangling (project : ProjectDocument) (graph : GraphDefinition) (call port : String) :
    Prop where
  edge : ∃ edge ∈ graph.document.edges, edge.enabled ∧ edge.toNode = call ∧ edge.toPort = port
  origins : ∀ origin ∈ graph.document.origins, origin.toNode = call → origin.toPort ≠ port
  undeclared : ∀ edge ∈ graph.document.edges, edge.enabled → edge.toNode = call →
    edge.toPort = port → Undeclared isOutput project graph edge.fromNode edge.fromPort

variable {project : ProjectDocument} (projectId : String) {visit : Visit} {site : Site}
  (hwf : WellFormed project)
include hwf

/-- An end that resolves through the callee's ports when it is a call fails to
resolve exactly when the port is undeclared. -/
theorem resolve_eq_none_iff {C : Type} {isPort : GraphNode → Bool}
    {declared : GraphDefinition → String → Option GraphNode}
    (hdeclared : ∀ graph ∈ project.graphs, ∀ {name node}, declared graph name = some node ↔
      node ∈ graph.document.nodes ∧ isPort node ∧ publicName node = name)
    {graph : GraphDefinition} (hgraph : graph ∈ project.graphs) {nodeId port : String}
    (hnode : nodeId ∈ nodeIds graph.document)
    (through : GraphNode → GraphDefinition → GraphNode → C)
    (own : GraphNode → C) :
    ((nodeNamed graph nodeId).bind (fun node =>
      if isCall node then (project.getGraph node.operatorId).bind (fun callee =>
        (declared callee port).map (through node callee))
      else some (own node))) = none ↔ Undeclared isPort project graph nodeId port := by
  obtain ⟨node, hmem, hid⟩ := List.mem_map.mp hnode
  have hnamed := (nodeNamed_iff hwf hgraph).mpr ⟨hmem, hid⟩
  have hunique : ∀ other ∈ graph.document.nodes, other.id = nodeId → other = node := by
    intro other hother hotherid
    exact List.inj_on_of_nodup_map (hwf.anchored _ hgraph).nodeIds hother hmem
      (hotherid.trans hid.symm)
  rw [hnamed, Option.bind_some]
  cases hcall : isCall node with
  | false =>
    simp only [Bool.false_eq_true, ↓reduceIte, reduceCtorEq, false_iff]
    rintro ⟨other, hother, hotherid, hothercall, -⟩
    rw [hunique other hother hotherid, hcall] at hothercall
    simp at hothercall
  | true =>
    obtain ⟨callee, hknown, hcallee⟩ := exists_callee hwf hgraph hmem hcall
    simp only [↓reduceIte, hcallee, Option.bind_some, Option.map_eq_none_iff]
    constructor
    · intro hnone
      refine ⟨node, hmem, hid, hcall, callee, hcallee, ?_⟩
      intro boundary hboundary hport hname
      rw [(hdeclared callee hknown).mpr ⟨hboundary, hport, hname⟩] at hnone
      simp at hnone
    · rintro ⟨other, hother, hotherid, -, callee', hcallee', hno⟩
      obtain rfl := hunique other hother hotherid
      cases hcallee.symm.trans hcallee'
      cases hfound : declared callee port with
      | none => rfl
      | some boundary =>
        obtain ⟨hboundary, hport, hname⟩ := (hdeclared callee hknown).mp hfound
        exact absurd hname (hno boundary hboundary hport)

section

variable (hgraph : visit.graph ∈ project.graphs)
include hgraph

theorem sourceOf_eq_none_iff (hedge : edge ∈ visit.graph.document.edges) :
    sourceOf project projectId visit edge = none ↔
      Undeclared isOutput project visit.graph edge.fromNode edge.fromPort :=
  resolve_eq_none_iff hwf (fun _ hknown => declaredOutput_iff hwf hknown) hgraph
    ((hwf.anchored _ hgraph).edges edge hedge).1 _ _

theorem targetOf_eq_none_iff (hnode : toNode ∈ nodeIds visit.graph.document) :
    targetOf project projectId visit toNode toPort = none ↔
      Undeclared isInput project visit.graph toNode toPort :=
  resolve_eq_none_iff hwf (fun _ hknown => declaredInput_iff hwf hknown) hgraph hnode _ _

theorem connectionOf_eq_none_iff (hedge : edge ∈ visit.graph.document.edges) (viaCall : Bool) :
    connectionOf project projectId visit (if viaCall then atBoundary edge else edge) = none ↔
      Undeclared isOutput project visit.graph edge.fromNode edge.fromPort := by
  rw [← sourceOf_eq_none_iff projectId hwf hgraph hedge]
  cases viaCall with
  | false | true => exact Option.map_eq_none_iff

end

omit hwf in
theorem atSite_iff (hinput : isInput node) :
    atSite site node toNode toPort ↔ toNode = site.node.id ∧ toPort = publicName node := by
  simp [atSite, hinput]

theorem callerConnections_eq_nil_iff (hgraph : site.visit.graph ∈ project.graphs)
    (hinput : isInput node) :
    callerConnections project projectId (some site) node = [] ↔
      ∀ edge ∈ site.visit.graph.document.edges, edge.enabled → edge.toNode = site.node.id →
        edge.toPort = publicName node →
          Undeclared isOutput project site.visit.graph edge.fromNode edge.fromPort := by
  simp only [callerConnections, drawnConnections, List.filterMap_eq_nil_iff]
  refine forall₂_congr (fun edge hedge => ?_)
  rw [← connectionOf_eq_none_iff projectId hwf hgraph hedge true]
  by_cases henabled : edge.enabled = true
  · by_cases hat : atSite site node edge.toNode edge.toPort = true
    · obtain ⟨hnode, hport⟩ := (atSite_iff hinput).mp hat
      rw [if_pos (by simp [henabled, hat])]
      simp [henabled, hnode, hport]
    · have hno : ¬ (edge.toNode = site.node.id ∧ edge.toPort = publicName node) :=
        fun h => hat ((atSite_iff hinput).mpr h)
      simp only [henabled, hat, Bool.and_false, Bool.false_eq_true, ↓reduceIte, true_iff]
      intro _ hnode hport
      exact absurd ⟨hnode, hport⟩ hno
  · simp [henabled]

omit hwf in
theorem callerOrigins_eq_nil_iff (hinput : isInput node) :
    callerOrigins (some site) node = [] ↔ ∀ origin ∈ site.visit.graph.document.origins,
      origin.toNode = site.node.id → origin.toPort ≠ publicName node := by
  simp only [callerOrigins, drawnOrigins, List.filter_eq_nil_iff, atSite_iff hinput, not_and, ne_eq]

omit hwf in
theorem callerDraws_iff (hinput : isInput node) :
    callerDraws (some site) node ↔
      (∃ edge ∈ site.visit.graph.document.edges, edge.enabled ∧ edge.toNode = site.node.id ∧
        edge.toPort = publicName node) ∨ callerOrigins (some site) node ≠ [] := by
  have horigins : callerOrigins (some site) node ≠ [] ↔
      (site.visit.graph.document.origins.any
        (fun origin => atSite site node origin.toNode origin.toPort)) = true := by
    simp [callerOrigins, drawnOrigins, List.filter_eq_nil_iff, List.any_eq_true]
  simp only [callerDraws, drawn, Bool.or_eq_true, horigins]
  simp only [List.any_eq_true, Bool.and_eq_true, atSite_iff hinput]

/-- The port counts as supplied and yet nothing arrives. -/
theorem onlyDangling_iff (hgraph : site.visit.graph ∈ project.graphs) (hinput : isInput node) :
    OnlyDangling project site.visit.graph site.node.id (publicName node) ↔
      callerDraws (some site) node ∧ callerConnections project projectId (some site) node = [] ∧
        callerOrigins (some site) node = [] := by
  rw [callerDraws_iff hinput, callerConnections_eq_nil_iff projectId hwf hgraph hinput]
  constructor
  · intro h
    exact ⟨Or.inl h.edge, h.undeclared, (callerOrigins_eq_nil_iff hinput).mpr h.origins⟩
  · rintro ⟨hdraws, hconnections, horigins⟩
    exact ⟨hdraws.resolve_right (not_not.mpr horigins),
      (callerOrigins_eq_nil_iff hinput).mp horigins, hconnections⟩

end Ends

section Defaults

/-- The callee's own origins on a boundary are absent exactly when the call
site puts a connection or an origin there. -/
def DefaultsDroppedWhenReplaced (project : ProjectDocument) (projectId : String) (site : Site)
    (callee : GraphDefinition) (node : GraphNode) (inst : ExpandedInstance) : Prop :=
  inst.origins =
    (if callerConnections project projectId (some site) node ≠ [] ∨
        callerOrigins (some site) node ≠ [] then []
      else drawnOrigins ⟨callee, site.callPath⟩ (atNode node)) ++
    (callerOrigins (some site) node).map
      (originAtBoundary (keyAt projectId callee site.callPath node))

/-- At every input boundary beneath a call the defaults give way exactly to a
supply, unless there are defaults and only edges without a source are drawn at
the port. -/
theorem defaults_dropped_iff {casefold : String → String} {project : ProjectDocument}
    {graphId projectId : String} {target callee : GraphDefinition} {expanded : ExpandedGraph}
    {site : Site} {node : GraphNode} (hvalid : project.Valid casefold)
    (htarget : project.getGraph graphId = some target)
    (hexpand : expandGraph project graphId projectId = .ok expanded)
    (hsite : Placed project target (some site) ⟨callee, site.callPath⟩)
    (hnode : node ∈ callee.document.nodes) (hinput : isInput node) :
    ∃ inst, expanded.instances.get? (keyAt projectId callee site.callPath node) = some inst ∧
      inst.connections.Perm (callerConnections project projectId (some site) node ++
        drawnConnections project projectId ⟨callee, site.callPath⟩ (atNode node) false) ∧
      (DefaultsDroppedWhenReplaced project projectId site callee node inst ↔
        ((∃ origin ∈ callee.document.origins, origin.toNode = node.id) →
          ¬ OnlyDangling project site.visit.graph site.node.id (publicName node))) := by
  have hwf := hvalid.wellFormed
  obtain ⟨target', htarget', hexp⟩ := expandGraph_ok hwf hexpand
  cases htarget.symm.trans htarget'
  have hknown : target ∈ project.graphs := List.mem_of_find?_eq_some htarget
  have hcall := isCall_of_boundary hwf (hsite.calls.mem_graphs hknown) hnode (Or.inl hinput)
  have hgraph : site.visit.graph ∈ project.graphs := by
    cases hsite with
    | called hcalls => exact hcalls.mem_graphs hknown
  refine ⟨_, hexp.get hsite hnode hcall, List.perm_insertionSort _ _, ?_⟩
  have hown : (∃ origin ∈ callee.document.origins, origin.toNode = node.id) ↔
      drawnOrigins ⟨callee, site.callPath⟩ (atNode node) ≠ [] := by
    simp [drawnOrigins, atNode, List.filter_eq_nil_iff]
  have hdraws : callerDraws (some site) node ↔ _ := callerDraws_iff hinput
  rw [hown, onlyDangling_iff projectId hwf hgraph hinput]
  simp only [DefaultsDroppedWhenReplaced, instanceOf, draftInstance, List.append_left_inj]
  by_cases hreplaced : callerConnections project projectId (some site) node ≠ [] ∨
      callerOrigins (some site) node ≠ []
  · -- what arrives was drawn at the port
    have hdrawn : callerDraws (some site) node = true := by
      rcases hreplaced with hconnections | horigins
      · rw [hdraws]
        left
        by_contra hnone
        refine hconnections ((callerConnections_eq_nil_iff projectId hwf hgraph hinput).mpr ?_)
        intro edge hedge henabled hto hport
        exact absurd ⟨edge, hedge, henabled, hto, hport⟩ hnone
      · exact hdraws.mpr (Or.inr horigins)
    simp only [hdrawn, hreplaced, ↓reduceIte, true_iff]
    rintro - ⟨-, hconnections, horigins⟩
    exact hreplaced.elim (fun h => h hconnections) (fun h => h horigins)
  · have hneither : callerConnections project projectId (some site) node = [] ∧
        callerOrigins (some site) node = [] := by
      simpa [not_or] using hreplaced
    cases hdrawn : callerDraws (some site) node with
    | false => simp [hneither]
    | true =>
      simp only [hneither, ne_eq, not_true_eq_false, or_self, ↓reduceIte, and_self, imp_false,
        not_not]
      exact eq_comm

/-- A connected input gives up its default. -/
theorem fedAlike_replaces : ∃ expanded inst,
    expandGraph (sharingProject fedAlike) "main" "p" = .ok expanded ∧
      expanded.instances.get? ⟨"p", "pass", ["a"], "in", none⟩ = some inst ∧
      DefaultsDroppedWhenReplaced (sharingProject fedAlike) "p" (siteOf fedAlike "a") passGraph
        ⟨.builtin, "in", "graph.input", 1, [("public_name", .str "x")], default, none, [], []⟩
        inst := by
  have hvalid : (sharingProject fedAlike).Valid id :=
    sharingProject_valid (by decide) (by decide)
  obtain ⟨expanded, fps, hexpand, -⟩ := exists_expanded hvalid (by decide)
  obtain ⟨inst, hinst, -, hiff⟩ := defaults_dropped_iff hvalid rfl hexpand
    (placed_siteOf fedAlike (Or.inl rfl)) (List.mem_singleton.mpr rfl) rfl
  refine ⟨expanded, inst, hexpand, hinst, hiff.mpr ?_⟩
  rintro - hdangling
  obtain ⟨source, hsource, hid, hcall, -⟩ := hdangling.undeclared (edgeTo "1" "l" "data" "a")
    (List.mem_cons_self ..) rfl rfl rfl
  -- the loading node is not a call
  simp only [siteOf, mainGraph, List.mem_cons, List.not_mem_nil, or_false] at hsource
  rcases hsource with rfl | rfl | rfl | rfl
  · simp [isCall] at hcall
  · simp [callOf, edgeTo] at hid
  · simp [callOf, edgeTo] at hid
  · simp [callOf, edgeTo] at hid

/-- Nothing arrives at the call's input, and its default is gone. -/
theorem skipped_edge_drops_default : (sharingProject fedByNothing).Valid id ∧ ∃ expanded inst,
    expandGraph (sharingProject fedByNothing) "main" "p" = .ok expanded ∧
      expanded.instances.get? ⟨"p", "pass", ["a"], "in", none⟩ = some inst ∧
      inst.connections = [] ∧ inst.origins = [] ∧
      ¬ DefaultsDroppedWhenReplaced (sharingProject fedByNothing) "p" (siteOf fedByNothing "a")
        passGraph
        ⟨.builtin, "in", "graph.input", 1, [("public_name", .str "x")], default, none, [], []⟩
        inst := by
  have hvalid : (sharingProject fedByNothing).Valid id :=
    sharingProject_valid (by decide) (by decide)
  obtain ⟨expanded, fps, hexpand, -⟩ := exists_expanded hvalid (by decide)
  obtain ⟨target, htarget, hexp⟩ := expandGraph_ok hvalid.wellFormed hexpand
  obtain rfl : mainGraph fedByNothing = target := Option.some.inj htarget
  refine ⟨hvalid, expanded, _, hexpand, hexp.get (placed_siteOf fedByNothing (Or.inl rfl))
    (List.mem_singleton.mpr rfl) rfl, by decide, by rfl, ?_⟩
  intro h
  have hlength := congrArg List.length h
  revert hlength
  decide

end Defaults

end Grafy.CallSites
