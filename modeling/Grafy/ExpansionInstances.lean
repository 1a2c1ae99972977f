import Grafy.ExpansionWiring

/-!
The instances of an expansion, read off the document. The instance of a node
at a call path holds the edges and origins its own Graph draws at the node
and, for an input boundary, those the call site draws at the port of that
name; the boundary's own origins stay only while the call site draws nothing
there. An expansion that succeeds lists exactly these instances in a
topological order, and it succeeds when their connections have no cycle.
-/
namespace Grafy.Expansion

open Fingerprints GraphDocuments Instances OrderedDict Project

variable {A : Type*}

section Feeds

variable (project : ProjectDocument) (projectId : String) (visit : Visit)
  (feeds : String → String → Bool)

/-- The connections of the enabled edges drawn at the chosen ports. -/
def drawnConnections (viaCall : Bool) : List Connection :=
  visit.graph.document.edges.filterMap (fun edge =>
    if edge.enabled && feeds edge.toNode edge.toPort then
      connectionOf project projectId visit (if viaCall then atBoundary edge else edge)
    else none)

def drawnOrigins : List GraphOrigin :=
  visit.graph.document.origins.filter (fun origin => feeds origin.toNode origin.toPort)

/-- Whether an enabled edge or an origin is drawn at a chosen port. -/
def drawn : Bool :=
  visit.graph.document.edges.any (fun edge => edge.enabled && feeds edge.toNode edge.toPort) ||
    visit.graph.document.origins.any (fun origin => feeds origin.toNode origin.toPort)

variable {project projectId visit feeds} {key : InstanceKey} {viaCall : Bool}

/-- The feeds at the chosen ports, and no others, arrive at the key. -/
def Arrives (project : ProjectDocument) (projectId : String) (visit : Visit) (key : InstanceKey)
    (feeds : String → String → Bool) (viaCall : Bool) : Prop :=
  ∀ toNode toPort through, targetOf project projectId visit toNode toPort = some (key, through) ↔
    through = viaCall ∧ feeds toNode toPort

theorem Arrives.arriving_eq (h : Arrives project projectId visit key feeds viaCall)
    (toNode toPort : String) (gain : Bool → Gain) :
    arriving project projectId visit key toNode toPort gain =
      if feeds toNode toPort then gain viaCall else {} := by
  unfold arriving
  cases htarget : targetOf project projectId visit toNode toPort with
  | none =>
    have hno : feeds toNode toPort = false := by
      by_contra hyes
      have hsome := (h toNode toPort viaCall).mpr ⟨rfl, by simpa using hyes⟩
      simp [htarget] at hsome
    simp [hno]
  | some found =>
    obtain ⟨targetKey, through⟩ := found
    by_cases hkey : key = targetKey
    · subst hkey
      obtain ⟨rfl, hyes⟩ := (h toNode toPort through).mp htarget
      simp [hyes]
    · have hno : feeds toNode toPort = false := by
        by_contra hyes
        have hsome := (h toNode toPort viaCall).mpr ⟨rfl, by simpa using hyes⟩
        rw [htarget] at hsome
        exact hkey (Prod.mk.inj (Option.some.inj hsome)).1.symm
      simp [hno, hkey]

theorem Arrives.edgeGain_eq (h : Arrives project projectId visit key feeds viaCall)
    (edge : GraphEdge) :
    edgeGain project projectId visit key edge =
      if edge.enabled && feeds edge.toNode edge.toPort then
        { connections := (connectionOf project projectId visit
            (if viaCall then atBoundary edge else edge)).toList
          supplied := viaCall }
      else {} := by
  unfold edgeGain
  cases edge.enabled with
  | false => simp
  | true => simpa using h.arriving_eq edge.toNode edge.toPort _

theorem flatMap_singletons {B : Type*} (p : A → Bool) (f : A → B) (l : List A) :
    l.flatMap (fun a => if p a then [f a] else []) = (l.filter p).map f := by
  induction l with
  | nil => rfl
  | cons a rest ih => cases h : p a <;> simp [h, ih]

/-- What a visit adds to a key, gathered over the ports that feed it. -/
theorem Arrives.visitGain_eq (h : Arrives project projectId visit key feeds viaCall) :
    visitGain project projectId visit key =
      { connections := drawnConnections project projectId visit feeds viaCall
        ownOrigins := if viaCall then [] else drawnOrigins visit feeds
        callerOrigins := if viaCall then (drawnOrigins visit feeds).map
          (originAtBoundary key) else []
        supplied := viaCall && drawn visit feeds } := by
  have horigin : ∀ origin, originGain project projectId visit key origin =
      if feeds origin.toNode origin.toPort then
        { ownOrigins := if viaCall then [] else [origin]
          callerOrigins := if viaCall then [originAtBoundary key origin] else []
          supplied := viaCall }
      else {} := fun origin => h.arriving_eq origin.toNode origin.toPort _
  have hconnections : (gather visit.graph.document.edges
      (edgeGain project projectId visit key)).connections =
        drawnConnections project projectId visit feeds viaCall := by
    unfold drawnConnections gather
    rw [List.filterMap_eq_flatMap_toList]
    apply List.flatMap_congr
    intro edge _
    rw [h.edgeGain_eq edge]
    split_ifs <;> rfl
  have hown : (gather visit.graph.document.origins
      (originGain project projectId visit key)).ownOrigins =
        if viaCall then [] else drawnOrigins visit feeds := by
    unfold drawnOrigins gather
    simp only [horigin]
    cases viaCall with
    | true => exact List.flatMap_eq_nil_iff.mpr (fun origin _ => by
      cases feeds origin.toNode origin.toPort <;> rfl)
    | false =>
      refine Eq.trans ?_ ((flatMap_singletons (fun origin =>
        feeds origin.toNode origin.toPort) id _).trans (List.map_id _))
      apply List.flatMap_congr
      intro origin _
      cases feeds origin.toNode origin.toPort <;> rfl
  have hcaller : (gather visit.graph.document.origins
      (originGain project projectId visit key)).callerOrigins =
        if viaCall then (drawnOrigins visit feeds).map (originAtBoundary key) else [] := by
    unfold drawnOrigins gather
    simp only [horigin]
    cases viaCall with
    | true =>
      refine Eq.trans ?_ (flatMap_singletons (fun origin =>
        feeds origin.toNode origin.toPort) (originAtBoundary key) _)
      apply List.flatMap_congr
      intro origin _
      cases feeds origin.toNode origin.toPort <;> rfl
    | false => exact List.flatMap_eq_nil_iff.mpr (fun origin _ => by
      cases feeds origin.toNode origin.toPort <;> rfl)
  have hsupplied :
    ((gather visit.graph.document.edges (edgeGain project projectId visit key)).supplied
      || (gather visit.graph.document.origins (originGain project projectId visit key)).supplied) =
        (viaCall && drawn visit feeds) := by
    simp only [gather, drawn, h.edgeGain_eq, horigin]
    cases viaCall with
    | true | false => simp [apply_ite]
  simp only [visitGain, hconnections, hown, hcaller, hsupplied]

end Feeds

variable {target : GraphDefinition}

section Sites

/-- A call node at a call path. -/
structure Site where
  visit : Visit
  node : GraphNode

def Site.callPath (site : Site) : List String := site.visit.callPath ++ [site.node.id]

/-- An occurrence of a Graph under the target, with the call site it is
reached from; the target itself has none. -/
inductive Placed (project : ProjectDocument) (target : GraphDefinition) : Option Site → Visit → Prop
  | root : Placed project target none ⟨target, []⟩
  | called {site : Site} {callee : GraphDefinition} :
      Calls project target site.visit.callPath site.visit.graph →
      site.node ∈ site.visit.graph.document.nodes → isCall site.node →
      project.getGraph site.node.operatorId = some callee →
      Placed project target (some site) ⟨callee, site.callPath⟩

variable {project : ProjectDocument}

theorem Placed.calls {caller : Option Site} {visit : Visit}
    (h : Placed project target caller visit) :
    Calls project target visit.callPath visit.graph := by
  cases h with
  | root => exact .here
  | called hcalls hnode hcall hcallee => exact hcalls.call hnode hcall hcallee

theorem Calls.placed {path : List String} {graph : GraphDefinition}
    (h : Calls project target path graph) : ∃ caller, Placed project target caller
      ⟨graph, path⟩ := by
  cases h with
  | here => exact ⟨none, .root⟩
  | @call path' graph' _ node hcalls hnode hcall hcallee =>
    have hsite : Placed project target (some ⟨⟨graph', path'⟩, node⟩) ⟨graph, path' ++ [node.id]⟩ :=
      .called hcalls hnode hcall hcallee
    exact ⟨_, hsite⟩

/-- The ports of a Graph that feed a node of it. -/
def atNode (node : GraphNode) (toNode _toPort : String) : Bool := toNode = node.id

/-- The port of a call site behind which a node of the callee stands. -/
def atSite (site : Site) (node : GraphNode) (toNode toPort : String) : Bool :=
  isInput node && (toNode = site.node.id && toPort = publicName node)

variable (project) (projectId : String) (caller : Option Site)

def callerConnections (node : GraphNode) : List Connection :=
  match caller with
  | none => []
  | some site => drawnConnections project projectId site.visit (atSite site node) true

def callerOrigins (node : GraphNode) : List GraphOrigin :=
  match caller with
  | none => []
  | some site => drawnOrigins site.visit (atSite site node)

def callerDraws (node : GraphNode) : Bool :=
  match caller with
  | none => false
  | some site => drawn site.visit (atSite site node)

/-- The instance of a node, by the Graph it stands in and its call site. -/
def instanceOf (visit : Visit) (node : GraphNode) : ExpandedInstance :=
  let key := keyAt projectId visit.graph visit.callPath node
  draftInstance key
    { node := node
      refreshGeneration := (visit.graph.refreshGenerations.get? node.id).getD 0
      connections := callerConnections project projectId caller node ++
        drawnConnections project projectId visit (atNode node) false
      ownOrigins := drawnOrigins visit (atNode node)
      callerOrigins := (callerOrigins caller node).map (originAtBoundary key)
      callerSupplied := callerDraws caller node }

end Sites

variable {key : InstanceKey} {viaCall : Bool} {found : List Visit} {node : GraphNode}
  {visit' : Visit}

section Arrivals

variable {project : ProjectDocument} {projectId : String} (stage : Stage project target found)
include stage

theorem targetOf_cases {visit : Visit} (hvisit : visit ∈ found) {toNode toPort : String}
    (h : targetOf project projectId visit toNode toPort = some (key, viaCall)) :
    ∃ node ∈ visit.graph.document.nodes, node.id = toNode ∧
      ((isCall node = false ∧ viaCall = false ∧
        key = keyAt projectId visit.graph visit.callPath node) ∨
        (isCall node = true ∧ viaCall = true ∧ ∃ callee boundary,
          project.getGraph node.operatorId = some callee ∧
          declaredInput callee toPort = some boundary ∧
          key = keyAt projectId callee (visit.callPath ++ [node.id]) boundary)) := by
  obtain ⟨node, hnamed, htarget⟩ := Option.bind_eq_some_iff.mp h
  obtain ⟨hnode, hid⟩ := (nodeNamed_iff stage.wellFormed (stage.mem_graphs hvisit)).mp hnamed
  refine ⟨node, hnode, hid, ?_⟩
  unfold targetAt at htarget
  cases hcall : isCall node with
  | false =>
    simp only [hcall, Bool.false_eq_true, ↓reduceIte, Option.some.injEq, Prod.mk.injEq] at htarget
    exact Or.inl ⟨rfl, htarget.2.symm, htarget.1.symm⟩
  | true =>
    simp only [hcall, ↓reduceIte] at htarget
    obtain ⟨callee, hcallee, htarget⟩ := Option.bind_eq_some_iff.mp htarget
    obtain ⟨boundary, hboundary, heq⟩ := Option.map_eq_some_iff.mp htarget
    obtain ⟨hkey, hvia⟩ := Prod.mk.inj heq
    exact Or.inr ⟨rfl, hvia.symm, callee, boundary, hcallee, hboundary, hkey.symm⟩

/-- In the Graph a node stands in, exactly the feeds at the node arrive. -/
theorem arrives_own {visit : Visit} (hvisit : visit ∈ found)
    (hnode : node ∈ visit.graph.document.nodes) (hcall : isCall node = false) :
    Arrives project projectId visit (keyAt projectId visit.graph visit.callPath node)
      (atNode node) false := by
  intro toNode toPort through
  constructor
  · intro h
    obtain ⟨target', -, hid, ⟨-, hthrough, hkey⟩ | ⟨-, -, callee, boundary, -, -, hkey⟩⟩ :=
      targetOf_cases stage hvisit h
    · have hnodeid : node.id = target'.id := congrArg InstanceKey.nodeId hkey
      exact ⟨hthrough, by simp [atNode, hnodeid, hid]⟩
    · have hpath : visit.callPath = visit.callPath ++ [target'.id] :=
        congrArg InstanceKey.callPath hkey
      simp at hpath
  · rintro ⟨rfl, hfeeds⟩
    have hid : toNode = node.id := by simpa [atNode] using hfeeds
    have hnamed := (nodeNamed_iff stage.wellFormed (stage.mem_graphs hvisit)).mpr ⟨hnode, hid.symm⟩
    simp [targetOf, targetAt, hnamed, hcall]

/-- At a call site, exactly the feeds at the port behind which the boundary
stands arrive. -/
theorem arrives_caller {site : Site} {callee : GraphDefinition} (hvisit : site.visit ∈ found)
    (hsite : site.node ∈ site.visit.graph.document.nodes) (hcall : isCall site.node)
    (hcallee : project.getGraph site.node.operatorId = some callee)
    (hnode : node ∈ callee.document.nodes) :
    Arrives project projectId site.visit (keyAt projectId callee site.callPath node)
      (atSite site node) true := by
  have hgraph : callee ∈ project.graphs := List.mem_of_find?_eq_some hcallee
  have hids := (stage.wellFormed.anchored _ (stage.mem_graphs hvisit)).nodeIds
  have hcalleeids := (stage.wellFormed.anchored _ hgraph).nodeIds
  intro toNode toPort through
  constructor
  · intro h
    obtain ⟨target', htarget', hid, ⟨-, -, hkey⟩ |
      ⟨-, hthrough, callee', boundary, hcallee', hinput, hkey⟩⟩ :=
      targetOf_cases stage hvisit h
    · have hpath : site.callPath = site.visit.callPath := congrArg InstanceKey.callPath hkey
      simp [Site.callPath] at hpath
    · have hpath : site.callPath = site.visit.callPath ++ [target'.id] :=
        congrArg InstanceKey.callPath hkey
      have hsame : site.node.id = target'.id := by simpa [Site.callPath] using hpath
      obtain rfl := List.inj_on_of_nodup_map hids hsite htarget' hsame
      cases hcallee.symm.trans hcallee'
      obtain ⟨hboundary, hin, hname⟩ := (declaredInput_iff stage.wellFormed hgraph).mp hinput
      obtain rfl := List.inj_on_of_nodup_map hcalleeids hnode hboundary
        (congrArg InstanceKey.nodeId hkey)
      exact ⟨hthrough, by simp [atSite, hin, hid, hname]⟩
  · rintro ⟨rfl, hfeeds⟩
    obtain ⟨hin, hid, hname⟩ : isInput node ∧ toNode = site.node.id ∧ toPort = publicName node := by
      simpa [atSite] using hfeeds
    have hnamed := (nodeNamed_iff stage.wellFormed (stage.mem_graphs hvisit)).mpr ⟨hsite, hid.symm⟩
    have hinput := (declaredInput_iff stage.wellFormed hgraph).mpr ⟨hnode, hin, hname.symm⟩
    simp [targetOf, targetAt, hnamed, hcall, hcallee, hinput, Site.callPath]

/-- No other visit has anything for an instance. -/
theorem arrives_elsewhere {visit : Visit} (hvisit : visit ∈ found) (hvisit' : visit' ∈ found)
    (hne : visit' ≠ visit) (hparent : ∀ id, visit'.callPath ++ [id] ≠ visit.callPath)
    (node : GraphNode) :
    Arrives project projectId visit' (keyAt projectId visit.graph visit.callPath node)
      (fun _ _ => false) false := by
  intro toNode toPort through
  constructor
  · intro h
    obtain ⟨target', -, -, ⟨-, -, hkey⟩ | ⟨-, -, callee, boundary, -, -, hkey⟩⟩ :=
      targetOf_cases stage hvisit' h
    · have hpath : visit.callPath = visit'.callPath := congrArg InstanceKey.callPath hkey
      exact absurd (stage.eq_of_callPath hvisit' hvisit hpath.symm) hne
    · have hpath : visit.callPath = visit'.callPath ++ [target'.id] :=
        congrArg InstanceKey.callPath hkey
      exact absurd hpath.symm (hparent target'.id)
  · rintro ⟨-, hfeeds⟩
    simp at hfeeds

end Arrivals

variable {caller : Option Site}

section Gathered

theorem gather_of_sublist {few l : List A} (hsub : few.Sublist l) (hnodup : l.Nodup)
    {gain : A → Gain} (hrest : ∀ a ∈ l, a ∉ few → gain a = {}) :
    gather l gain = gather few gain := by
  have hsupplied : l.any (fun a => (gain a).supplied) = few.any (fun a => (gain a).supplied) := by
    rw [Bool.eq_iff_iff, List.any_eq_true, List.any_eq_true]
    constructor
    · rintro ⟨a, ha, hsupplied⟩
      refine ⟨a, ?_, hsupplied⟩
      by_contra hnot
      simp [hrest a ha hnot] at hsupplied
    · rintro ⟨a, ha, hsupplied⟩
      exact ⟨a, hsub.subset ha, hsupplied⟩
  unfold gather
  rw [Alignment.flatMap_of_sublist hsub hnodup (fun a ha hnot => by rw [hrest a ha hnot]),
    Alignment.flatMap_of_sublist hsub hnodup (fun a ha hnot => by rw [hrest a ha hnot]),
    Alignment.flatMap_of_sublist hsub hnodup (fun a ha hnot => by rw [hrest a ha hnot]), hsupplied]

variable {project : ProjectDocument} {projectId : String} (stage : Stage project target found)
include stage

theorem visitGain_elsewhere {visit : Visit} (hvisit : visit ∈ found) (hvisit' : visit' ∈ found)
    (hne : visit' ≠ visit) (hparent : ∀ id, visit'.callPath ++ [id] ≠ visit.callPath)
    (node : GraphNode) :
    visitGain project projectId visit' (keyAt projectId visit.graph visit.callPath node) = {} := by
  rw [(arrives_elsewhere stage hvisit hvisit' hne hparent node).visitGain_eq]
  simp [drawnConnections, drawnOrigins]

/-- What all visits add to an instance comes from its call site and from its
own Graph, in this order. -/
theorem gather_visits {visit : Visit} (hplaced : Placed project target caller visit)
    (hnode : node ∈ visit.graph.document.nodes) (hcall : isCall node = false) :
    gather found (fun v => visitGain project projectId v
        (keyAt projectId visit.graph visit.callPath node)) =
      { connections := callerConnections project projectId caller node ++
          drawnConnections project projectId visit (atNode node) false
        ownOrigins := drawnOrigins visit (atNode node)
        callerOrigins := (callerOrigins caller node).map
          (originAtBoundary (keyAt projectId visit.graph visit.callPath node))
        supplied := callerDraws caller node } := by
  have hvisit := stage.mem hplaced.calls
  have hnodup : found.Nodup := List.Nodup.of_map _ stage.paths_nodup
  have harrives : Arrives project projectId visit (keyAt projectId visit.graph visit.callPath node)
      (atNode node) false := arrives_own stage hvisit hnode hcall
  have hown := harrives.visitGain_eq
  cases hplaced with
  | root =>
    rw [gather_of_sublist (List.singleton_sublist.mpr hvisit) hnodup (by
      intro v hv hnot
      exact visitGain_elsewhere stage hvisit hv (by simpa using hnot) (by simp) node)]
    simp [gather, hown, callerConnections, callerOrigins, callerDraws]
  | @called site callee hcalls hsite hsitecall hcallee =>
    have hsitevisit := stage.mem hcalls
    have hpair := caller_before_callee _ stage.visits hcalls hsite hsitecall hcallee
    rw [List.nil_append] at hpair
    have hthrough : Arrives project projectId site.visit (keyAt projectId callee site.callPath node)
        (atSite site node) true := arrives_caller stage hsitevisit hsite hsitecall hcallee hnode
    have hcaller := hthrough.visitGain_eq
    rw [gather_of_sublist hpair hnodup (by
      intro v hv hnot
      have hneither : v ≠ site.visit ∧ v ≠ ⟨callee, site.callPath⟩ := by
        simpa [Site.callPath] using hnot
      refine visitGain_elsewhere stage hvisit hv hneither.2 ?_ node
      intro id heq
      have hinit : v.callPath = site.visit.callPath := (List.append_inj' heq rfl).1
      exact hneither.1 (stage.eq_of_callPath hv hsitevisit hinit))]
    have hpath : site.visit.callPath ++ [site.node.id] = site.callPath := rfl
    simp [gather, hpath, hown, hcaller, callerConnections, callerOrigins, callerDraws]

end Gathered

section Draft

variable {project : ProjectDocument} {found : List Visit} (stage : Stage project target found)
  (projectId : String)

/-- The instances of the visits, wired. -/
def draft (project : ProjectDocument) (projectId : String) (found : List Visit) :
    Dict InstanceKey ExpandedInstance :=
  draftInstances ((pendingInstances projectId found).mapValues (fun key item =>
    item.gain (gather found (fun visit => visitGain project projectId visit key))))

include stage

theorem placed_keys_nodup : (Dict.keys (found.flatMap (placed projectId))).Nodup := by
  unfold Dict.keys
  rw [List.map_flatMap, List.nodup_flatMap]
  constructor
  · intro visit hvisit
    have hids := (stage.wellFormed.anchored _ (stage.mem_graphs hvisit)).nodeIds
    have hnodes : (visit.graph.document.nodes.filter (fun node => !isCall node)).Nodup :=
      (List.Nodup.of_map _ hids).filter _
    simp only [placed, List.map_map]
    refine List.Nodup.map_on ?_ hnodes
    intro a ha b hb heq
    have hid : a.id = b.id := congrArg InstanceKey.nodeId heq
    exact List.inj_on_of_nodup_map hids (List.mem_filter.mp ha).1 (List.mem_filter.mp hb).1 hid
  · have hpaths : found.Pairwise (fun a b => a.callPath ≠ b.callPath) :=
      List.pairwise_map.mp stage.paths_nodup
    refine hpaths.imp ?_
    intro a b hne key ha hb
    obtain ⟨entry, hentry, rfl⟩ := List.mem_map.mp ha
    obtain ⟨entry', hentry', heq⟩ := List.mem_map.mp hb
    obtain ⟨node, -, rfl⟩ := List.mem_map.mp hentry
    obtain ⟨node', -, rfl⟩ := List.mem_map.mp hentry'
    exact hne (congrArg InstanceKey.callPath heq).symm

theorem pendingInstances_eq : pendingInstances projectId found = found.flatMap
    (placed projectId) := by
  have hfold := Dict.foldl_set_eq_append Prod.fst Prod.snd (found.flatMap (placed projectId)) []
    (by simpa [Dict.keys] using placed_keys_nodup stage projectId)
  simpa [pendingInstances] using hfold

theorem mem_pending_keys : key ∈ (pendingInstances projectId found).keys ↔
    ∃ visit ∈ found, ∃ node ∈ visit.graph.document.nodes, isCall node = false ∧
      key = keyAt projectId visit.graph visit.callPath node := by
  rw [pendingInstances_eq stage]
  simp only [Dict.keys, List.mem_map, List.mem_flatMap, placed, List.mem_filter]
  constructor
  · rintro ⟨entry, ⟨visit, hvisit, node, ⟨hnode, hcall⟩, rfl⟩, rfl⟩
    exact ⟨visit, hvisit, node, hnode, by simpa using hcall, rfl⟩
  · rintro ⟨visit, hvisit, node, hnode, hcall, rfl⟩
    exact ⟨_, ⟨visit, hvisit, node, ⟨hnode, by simp [hcall]⟩, rfl⟩, rfl⟩

theorem keyed_pending : Keyed projectId found (pendingInstances projectId found).keys := by
  refine ⟨?_, ?_⟩
  · rw [pendingInstances_eq stage]
    exact placed_keys_nodup stage projectId
  · intro visit hvisit node hnode hcall
    exact (mem_pending_keys stage projectId).mpr ⟨visit, hvisit, node, hnode, hcall, rfl⟩

omit stage in
theorem keys_draft : (draft project projectId found).keys =
    (pendingInstances projectId found).keys := by
  simp [draft, draftInstances, Dict.keys, Dict.mapValues, Function.comp_def]

theorem get?_draft {visit : Visit} (hplaced : Placed project target caller visit)
    (hnode : node ∈ visit.graph.document.nodes) (hcall : isCall node = false) :
    (draft project projectId found).get? (keyAt projectId visit.graph visit.callPath node) =
      some (instanceOf project projectId caller visit node) := by
  have hvisit := stage.mem hplaced.calls
  have hpending : (pendingInstances projectId found).get?
      (keyAt projectId visit.graph visit.callPath node) =
        some {
          node, refreshGeneration := (visit.graph.refreshGenerations.get? node.id).getD 0 } := by
    rw [pendingInstances_eq stage]
    refine Dict.get?_of_mem (placed_keys_nodup stage projectId) ?_
    refine List.mem_flatMap.mpr ⟨visit, hvisit, List.mem_map.mpr ⟨node, ?_, rfl⟩⟩
    exact List.mem_filter.mpr ⟨hnode, by simp [hcall]⟩
  have hdraft : draft project projectId found =
      Dict.mapValues ((pendingInstances projectId found).mapValues (fun key item =>
        item.gain (gather found (fun visit => visitGain project projectId visit key))))
          draftInstance := rfl
  rw [hdraft, Dict.get?_mapValues, Dict.get?_mapValues, hpending,
    gather_visits stage hplaced hnode hcall]
  simp [instanceOf, Pending.gain]

end Draft

variable {order : List InstanceKey}

section Order

theorem pushKey_perm (key : InstanceKey) (ready : List InstanceKey) :
    (pushKey key ready).Perm (key :: ready) := List.perm_orderedInsert _ key ready

variable {instances : Dict InstanceKey ExpandedInstance}

theorem topologicalOrder_eq (hclosed : ∀ key ∈ instances.keys, ∀ source ∈ feeders instances key,
    source ∈ instances.keys) :
    topologicalOrder instances =
      if (TopologicalSort.sort pushKey (feeders instances) instances.keys).length = instances.length
      then .ok (TopologicalSort.sort pushKey (feeders instances) instances.keys)
      else .error (cycleError instances
        (TopologicalSort.sort pushKey (feeders instances) instances.keys)) := by
  have hfind : (instances.keys.flatMap (feeders instances)).find?
      (fun key => key ∉ instances.keys) = none := by
    refine List.find?_eq_none.mpr ?_
    intro source hsource
    obtain ⟨key, hkey, hmem⟩ := List.mem_flatMap.mp hsource
    simpa using hclosed key hkey source hmem
  unfold topologicalOrder
  rw [hfind]

/-- The order lists every instance after the ones that feed it. -/
theorem topologicalOrder_ok (hkeys : instances.keys.Nodup)
    (hclosed : ∀ key ∈ instances.keys, ∀ source ∈ feeders instances key, source ∈ instances.keys)
    (h : topologicalOrder instances = .ok order) :
    order.Nodup ∧ TopologicalSort.Sourced (feeders instances) order ∧
      ∀ key, key ∈ order ↔ key ∈ instances.keys := by
  rw [topologicalOrder_eq hclosed] at h
  split_ifs at h with hlength
  obtain rfl : _ = order := by simpa using h
  have hlength' : (TopologicalSort.sort pushKey (feeders instances) instances.keys).length =
      instances.keys.length := by simpa [Dict.keys] using hlength
  refine ⟨TopologicalSort.sort_nodup pushKey_perm hkeys,
    TopologicalSort.sort_sourced pushKey_perm hkeys, ?_⟩
  intro key
  exact ⟨TopologicalSort.sort_subset pushKey_perm hkeys,
    (TopologicalSort.sort_length_eq_iff pushKey_perm hkeys).mp hlength' key⟩

theorem topologicalOrder_exists (hkeys : instances.keys.Nodup) (hclosed : ∀ key ∈ instances.keys,
    ∀ source ∈ feeders instances key, source ∈ instances.keys)
    (hacc : ∀ key ∈ instances.keys, Acc (fun s k => s ∈ feeders instances k) key) :
    ∃ order, topologicalOrder instances = .ok order := by
  have hall : ∀ key ∈ instances.keys,
      key ∈ TopologicalSort.sort pushKey (feeders instances) instances.keys := by
    intro key hkey
    exact TopologicalSort.mem_sort_of_acc pushKey_perm hkeys hclosed hkey (hacc key hkey)
  have hlength := (TopologicalSort.sort_length_eq_iff pushKey_perm hkeys).mpr hall
  refine ⟨TopologicalSort.sort pushKey (feeders instances) instances.keys, ?_⟩
  rw [topologicalOrder_eq hclosed, if_pos]
  simpa [Dict.keys] using hlength

end Order

variable {graphId : String}

section Expanded

variable {project : ProjectDocument} {projectId : String} (stage : Stage project target found)
include stage

variable {connection : Connection}

theorem connectionOf_source {visit : Visit} (hvisit : visit ∈ found) {edge : GraphEdge}
    (h : connectionOf project projectId visit edge = some connection) :
    connection.source ∈ (draft project projectId found).keys := by
  rw [keys_draft, mem_pending_keys stage]
  obtain ⟨resolved, hresolved, rfl⟩ := Option.map_eq_some_iff.mp h
  obtain ⟨source, hnamed, hsource⟩ := Option.bind_eq_some_iff.mp hresolved
  have hnode := ((nodeNamed_iff stage.wellFormed (stage.mem_graphs hvisit)).mp hnamed).1
  unfold sourceAt at hsource
  cases hcall : isCall source with
  | false =>
    obtain rfl : _ = resolved := by simpa [hcall] using hsource
    exact ⟨visit, hvisit, source, hnode, hcall, rfl⟩
  | true =>
    obtain ⟨callee, hcallee, hmem, -⟩ := stage.callee hvisit hnode hcall
    simp only [hcall, ↓reduceIte, hcallee, Option.bind_some] at hsource
    obtain ⟨boundary, hboundary, rfl⟩ := Option.map_eq_some_iff.mp hsource
    obtain ⟨hbnode, hout, -⟩ :=
      (declaredOutput_iff stage.wellFormed (stage.mem_graphs hmem)).mp hboundary
    exact ⟨_, hmem, boundary, hbnode,
      isCall_of_boundary stage.wellFormed (stage.mem_graphs hmem) hbnode (Or.inr hout), rfl⟩

theorem drawnConnections_source {visit : Visit} (hvisit : visit ∈ found)
    {feeds : String → String → Bool}
    (h : connection ∈ drawnConnections project projectId visit feeds viaCall) :
    connection.source ∈ (draft project projectId found).keys := by
  obtain ⟨edge, -, hedge⟩ := List.mem_filterMap.mp h
  by_cases hfeeds : edge.enabled && feeds edge.toNode edge.toPort
  · rw [if_pos hfeeds] at hedge
    exact connectionOf_source stage hvisit hedge
  · rw [if_neg hfeeds] at hedge
    simp at hedge

omit stage in
theorem mem_connections_instanceOf {visit : Visit} :
    connection ∈ (instanceOf project projectId caller visit node).connections ↔
      connection ∈ callerConnections project projectId caller node ∨
        connection ∈ drawnConnections project projectId visit (atNode node) false := by
  rw [← List.mem_append]
  exact (List.perm_insertionSort _ _).mem_iff

/-- Every instance of the draft is the one its occurrence determines. -/
theorem exists_placed_of_mem_draft (h : key ∈ (draft project projectId found).keys) :
    ∃ caller visit node, Placed project target caller visit ∧ node ∈ visit.graph.document.nodes ∧
      isCall node = false ∧ key = keyAt projectId visit.graph visit.callPath node := by
  rw [keys_draft, mem_pending_keys stage] at h
  obtain ⟨visit, hvisit, node, hnode, hcall, rfl⟩ := h
  obtain ⟨caller, hplaced⟩ := (stage.calls hvisit).placed
  exact ⟨caller, visit, node, hplaced, hnode, hcall, rfl⟩

theorem feeders_draft {visit : Visit} (hplaced : Placed project target caller visit)
    (hnode : node ∈ visit.graph.document.nodes) (hcall : isCall node = false) :
    feeders (draft project projectId found) (keyAt projectId visit.graph visit.callPath node) =
      (instanceOf project projectId caller visit node).connections.map Connection.source := by
  simp [feeders, get?_draft stage projectId hplaced hnode hcall]

theorem draft_closed : ∀ key ∈ (draft project projectId found).keys,
    ∀ source ∈ feeders (draft project projectId found) key,
      source ∈ (draft project projectId found).keys := by
  intro key hkey source hsource
  obtain ⟨caller, visit, node, hplaced, hnode, hcall, rfl⟩ := exists_placed_of_mem_draft stage hkey
  rw [feeders_draft stage hplaced hnode hcall] at hsource
  obtain ⟨connection, hconnection, rfl⟩ := List.mem_map.mp hsource
  rcases mem_connections_instanceOf.mp hconnection with hcaller | hown
  · cases hplaced with
    | root => simp [callerConnections] at hcaller
    | called hcalls => exact drawnConnections_source stage (stage.mem hcalls) hcaller
  · exact drawnConnections_source stage (stage.mem hplaced.calls) hown

theorem draft_keys_nodup : (draft project projectId found).keys.Nodup := by
  rw [keys_draft]
  exact (keyed_pending stage projectId).nodup

/-- On a well-formed document only the ordering can fail. -/
theorem expandGraph_eq (hget : project.getGraph graphId = some target) :
    expandGraph project graphId projectId =
      (topologicalOrder (draft project projectId found)).map (fun order =>
        { projectId := projectId
          graphId := graphId
          instances := order.filterMap (fun key =>
            ((draft project projectId found).get? key).map (fun inst => (key, inst)))
          order := order }) := by
  have hwired := wireVisits_eq stage (keyed_pending stage projectId)
  simp only [expandGraph, getGraph, hget, stage.visits, hwired, bind, Except.bind]
  change _ = (topologicalOrder (draftInstances _)).map _
  generalize topologicalOrder (draftInstances _) = result
  cases result with
  | error e | ok order => rfl

end Expanded

/-- One instance reads another over a connection. -/
def Reads (project : ProjectDocument) (target : GraphDefinition) (projectId : String)
    (source key : InstanceKey) : Prop :=
  ∃ caller visit node, Placed project target caller visit ∧ node ∈ visit.graph.document.nodes ∧
    isCall node = false ∧ key = keyAt projectId visit.graph visit.callPath node ∧
    source ∈ (instanceOf project projectId caller visit node).connections.map Connection.source

/-- An expanded graph holds the instance of every occurrence of a node and no
other, in a topological order. -/
structure Expands (project : ProjectDocument) (target : GraphDefinition) (projectId : String)
    (expanded : ExpandedGraph) : Prop where
  get : ∀ {caller visit node}, Placed project target caller visit →
    node ∈ visit.graph.document.nodes → isCall node = false →
    expanded.instances.get? (keyAt projectId visit.graph visit.callPath node) =
      some (instanceOf project projectId caller visit node)
  placed : ∀ {key inst}, expanded.instances.get? key = some inst →
    ∃ caller visit node, Placed project target caller visit ∧ node ∈ visit.graph.document.nodes ∧
      isCall node = false ∧ key = keyAt projectId visit.graph visit.callPath node
  topological : expanded.Topological
  closed : ∀ {key inst}, expanded.instances.get? key = some inst → ∀ connection ∈ inst.connections,
    (expanded.instances.get? connection.source).isSome

section Results

variable {project : ProjectDocument} {projectId : String} {expanded : ExpandedGraph}

theorem exists_stage (hwf : WellFormed project) (hget : project.getGraph graphId = some target) :
    ∃ found, Stage project target found := by
  have hknown : target ∈ project.graphs := List.mem_of_find?_eq_some hget
  obtain ⟨rank, hbound, hlower⟩ := hwf.ranked
  obtain ⟨found, hfound⟩ := visits_exists hwf hlower project.graphs.length [] hknown
    (hbound target hknown)
  exact ⟨found, hwf, hknown, hfound⟩

theorem keys_filterMap_get? {d : Dict InstanceKey ExpandedInstance} (order : List InstanceKey)
    (h : ∀ key ∈ order, ∃ inst, d.get? key = some inst) :
    Dict.keys (order.filterMap (fun key => (d.get? key).map (fun inst => (key, inst)))) =
      order := by
  induction order with
  | nil => rfl
  | cons key rest ih =>
    obtain ⟨inst, hinst⟩ := h key (List.mem_cons_self ..)
    have hrest := ih (fun k hk => h k (List.mem_cons_of_mem _ hk))
    simp only [Dict.keys] at hrest
    simp [Dict.keys, hinst, hrest]

theorem expands_of_order (stage : Stage project target found)
    (horder : topologicalOrder (draft project projectId found) = .ok order) :
    Expands project target projectId
      { projectId := projectId
        graphId := graphId
        instances := order.filterMap (fun key =>
          ((draft project projectId found).get? key).map (fun inst => (key, inst)))
        order := order } := by
  obtain ⟨hnodup, hsourced, hmem⟩ :=
    topologicalOrder_ok (draft_keys_nodup stage) (draft_closed stage) horder
  set d := draft project projectId found with hd
  set listed := order.filterMap (fun key => (d.get? key).map (fun inst => (key, inst))) with hlisted
  have hkeys : Dict.keys listed = order := by
    have hall : ∀ key ∈ order, ∃ inst, d.get? key = some inst := fun key hkey =>
      Option.isSome_iff_exists.mp (Dict.get?_isSome_of_mem_keys ((hmem key).mp hkey))
    exact keys_filterMap_get? order hall
  have hget : ∀ key, Dict.get? listed key = d.get? key := by
    intro key
    cases hfound : d.get? key with
    | none =>
      refine Dict.get?_eq_none ?_
      rw [hkeys, hmem key]
      intro hin
      simpa [hfound] using Dict.get?_isSome_of_mem_keys hin
    | some inst =>
      refine Dict.get?_of_mem (hkeys ▸ hnodup) (List.mem_filterMap.mpr ⟨key, ?_, by simp [hfound]⟩)
      exact (hmem key).mpr (Dict.mem_keys_of_get? hfound)
  have hsources : ∀ key, ExpandedGraph.sources ⟨projectId, graphId, listed, order⟩ key =
      feeders d key := by
    intro key
    simp only [ExpandedGraph.sources, feeders, hget]
    cases d.get? key <;> rfl
  refine ⟨?_, ?_, ⟨hnodup, ?_, ?_⟩, ?_⟩
  · intro caller visit node hplaced hnode hcall
    rw [hget]
    exact get?_draft stage projectId hplaced hnode hcall
  · intro key inst hinst
    rw [hget] at hinst
    exact exists_placed_of_mem_draft stage (Dict.mem_keys_of_get? hinst)
  · intro key
    simp only [hget]
    rw [hmem key]
    constructor
    · intro hin
      exact Option.isSome_iff_exists.mp (Dict.get?_isSome_of_mem_keys hin)
    · rintro ⟨inst, hinst⟩
      exact Dict.mem_keys_of_get? hinst
  · intro before key after horder source hsource
    rw [hsources] at hsource
    exact hsourced before key after horder source hsource
  · intro key inst hinst connection hconnection
    rw [hget] at hinst
    rw [hget]
    refine Dict.get?_isSome_of_mem_keys (draft_closed stage key (Dict.mem_keys_of_get? hinst) _ ?_)
    simp only [feeders, ← hd, hinst]
    exact List.mem_map.mpr ⟨connection, hconnection, rfl⟩

/-- An expansion that succeeds is an expanded graph of its target. -/
theorem expandGraph_ok (hwf : WellFormed project)
    (h : expandGraph project graphId projectId = .ok expanded) :
    ∃ target, project.getGraph graphId = some target ∧
      Expands project target projectId expanded := by
  cases hget : project.getGraph graphId with
  | none => simp [expandGraph, getGraph, hget, bind, Except.bind] at h
  | some target =>
    refine ⟨target, rfl, ?_⟩
    obtain ⟨found, stage⟩ := exists_stage hwf hget
    rw [expandGraph_eq stage hget] at h
    cases horder : topologicalOrder (draft project projectId found) with
    | error e => simp [horder, Except.map] at h
    | ok order =>
      obtain rfl : _ = expanded := by simpa [horder, Except.map] using h
      exact expands_of_order stage horder

/-- An expansion succeeds when following connections upstream always ends. -/
theorem expandGraph_exists (hwf : WellFormed project)
    (hget : project.getGraph graphId = some target)
    (hacc : ∀ {caller visit node}, Placed project target caller visit →
      node ∈ visit.graph.document.nodes → isCall node = false →
      Acc (Reads project target projectId) (keyAt projectId visit.graph visit.callPath node)) :
    ∃ expanded, expandGraph project graphId projectId = .ok expanded := by
  obtain ⟨found, stage⟩ := exists_stage hwf hget
  have hsub : Subrelation (fun s k => s ∈ feeders (draft project projectId found) k)
      (Reads project target projectId) := by
    intro source key hsource
    cases hinst : (draft project projectId found).get? key with
    | none => simp [feeders, hinst] at hsource
    | some inst =>
      obtain ⟨caller, visit, node, hplaced, hnode, hcall, rfl⟩ :=
        exists_placed_of_mem_draft stage (Dict.mem_keys_of_get? hinst)
      rw [feeders_draft stage hplaced hnode hcall] at hsource
      exact ⟨caller, visit, node, hplaced, hnode, hcall, rfl, hsource⟩
  obtain ⟨order, horder⟩ := topologicalOrder_exists (draft_keys_nodup stage) (draft_closed stage)
    (by
    intro key hkey
    obtain ⟨caller, visit, node, hplaced, hnode, hcall, rfl⟩ :=
      exists_placed_of_mem_draft stage hkey
    exact Subrelation.accessible hsub (hacc hplaced hnode hcall))
  rw [expandGraph_eq stage hget, horder]
  exact ⟨_, rfl⟩

theorem Expands.acc (h : Expands project target projectId expanded) {visit : Visit}
    (hplaced : Placed project target caller visit) (hnode : node ∈ visit.graph.document.nodes)
    (hcall : isCall node = false) :
    Acc (Reads project target projectId) (keyAt projectId visit.graph visit.callPath node) := by
  have hsub : Subrelation (Reads project target projectId) (fun s k => s ∈ expanded.sources k) := by
    rintro source key ⟨caller, visit, node, hplaced, hnode, hcall, rfl, hsource⟩
    rw [ExpandedGraph.sources_eq (h.get hplaced hnode hcall)]
    exact hsource
  have hmem : keyAt projectId visit.graph visit.callPath node ∈ expanded.order :=
    (h.topological.covers _).mpr ⟨_, h.get hplaced hnode hcall⟩
  have hsourced : TopologicalSort.Sourced expanded.sources expanded.order :=
    h.topological.sourcesBefore
  exact Subrelation.accessible hsub (hsourced.acc hmem)

end Results

section Example

open CanonicalJson DocumentRules

/-- A Graph that hands its input through, and one that loads a value and calls
it. The ids of the loading and of the calling node are open. -/
def callProject (load call : String) : ProjectDocument :=
  let node (kind : GraphNodeKind) (id operator : String) (config : Dict String Json) : GraphNode :=
    ⟨kind, id, operator, 1, config, default, none, [], []⟩
  let edge (source port target entry : String) : GraphEdge :=
    ⟨"e", true, source, port, target, entry, none, .direct, none, [], none⟩
  ⟨[⟨"pass", "Pass", ⟨[], [node .builtin "in" "graph.input" [("public_name", .str "x")],
      node .builtin "out" "graph.output" [("public_name", .str "y")]],
      [edge "in" "value" "out" "value"], [], ⟨[], [], [], []⟩⟩, []⟩,
    ⟨"main", "Main", ⟨[], [node .builtin load "load" [], node .call call "pass" []],
      [edge load "data" call "x"], [], ⟨[], [], [], []⟩⟩, [(load, 3)]⟩]⟩

theorem callProject_valid : (callProject "a" "b").Valid id := by
  refine ⟨?_, ?_, by decide⟩
  · simp only [callProject, List.forall_mem_cons, List.not_mem_nil, IsEmpty.forall_iff,
      implies_true, and_true]
    exact ⟨by decide, by decide⟩
  · simp only [callProject, List.forall_mem_cons, List.not_mem_nil, IsEmpty.forall_iff,
      implies_true, and_true]
    exact ⟨by decide, by decide⟩

theorem callProject_expands : ∃ expanded,
    expandGraph (callProject "a" "b") "main" "p" = .ok expanded ∧
      expanded.order = [⟨"p", "main", [], "a", none⟩, ⟨"p", "pass", ["b"], "in", none⟩,
        ⟨"p", "pass", ["b"], "out", none⟩] := by
  have horder : (expandGraph (callProject "a" "b") "main" "p").map ExpandedGraph.order =
      .ok [⟨"p", "main", [], "a", none⟩, ⟨"p", "pass", ["b"], "in", none⟩,
        ⟨"p", "pass", ["b"], "out", none⟩] := by decide
  cases h : expandGraph (callProject "a" "b") "main" "p" with
  | error e => simp [h, Except.map] at horder
  | ok expanded => exact ⟨expanded, rfl, by simpa [h, Except.map] using horder⟩

end Example

end Grafy.Expansion
