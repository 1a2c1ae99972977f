import Grafy.ExpansionVisits
import Mathlib.Data.List.Induction

/-!
What the wiring loops add to each instance. On a well-formed document no
lookup of the loops fails, and each edge and origin of a visit adds its share
to the one instance its target resolves to. What an instance ends up with is
therefore gathered from the Graph it stands in and from the call site one
level above.
-/
namespace Grafy.Expansion

open GraphDocuments Instances Loops OrderedDict Project

section Gains

/-- What one edge, origin or visit adds to an instance. -/
structure Gain where
  connections : List Connection := []
  ownOrigins : List GraphOrigin := []
  callerOrigins : List GraphOrigin := []
  supplied : Bool := false

def Pending.gain (item : Pending) (gain : Gain) : Pending :=
  { item with
    connections := item.connections ++ gain.connections
    ownOrigins := item.ownOrigins ++ gain.ownOrigins
    callerOrigins := item.callerOrigins ++ gain.callerOrigins
    callerSupplied := item.callerSupplied || gain.supplied }

@[simp] theorem Pending.gain_nothing (item : Pending) : item.gain {} = item := by
  simp [Pending.gain]

def gather {A : Type*} (l : List A) (gain : A → Gain) : Gain where
  connections := l.flatMap (fun a => (gain a).connections)
  ownOrigins := l.flatMap (fun a => (gain a).ownOrigins)
  callerOrigins := l.flatMap (fun a => (gain a).callerOrigins)
  supplied := l.any (fun a => (gain a).supplied)

theorem foldl_gain {A : Type*} (gain : A → Gain) (l : List A) (item : Pending) :
    l.foldl (fun item a => item.gain (gain a)) item = item.gain (gather l gain) := by
  induction l generalizing item with
  | nil => simp [gather, Pending.gain]
  | cons a rest ih =>
    rw [List.foldl_cons, ih]
    simp [Pending.gain, gather, Bool.or_assoc]

end Gains

section Resolution

variable (project : ProjectDocument) (projectId : String) (visit : Visit)

/-- The instance and port an edge out of this node reads. -/
def sourceAt (source : GraphNode) (fromPort : String) : Option (InstanceKey × String) :=
  if isCall source then
    (project.getGraph source.operatorId).bind (fun callee =>
      (declaredOutput callee fromPort).map (fun boundary =>
        (keyAt projectId callee (visit.callPath ++ [source.id]) boundary, graphBoundaryPort)))
  else some (keyAt projectId visit.graph visit.callPath source, fromPort)

def sourceOf (edge : GraphEdge) : Option (InstanceKey × String) :=
  (nodeNamed visit.graph edge.fromNode).bind
    (fun source => sourceAt project projectId visit source edge.fromPort)

/-- The instance a feed at this port arrives at, and whether through a call. -/
def targetAt (target : GraphNode) (toPort : String) : Option (InstanceKey × Bool) :=
  if isCall target then
    (project.getGraph target.operatorId).bind (fun callee =>
      (declaredInput callee toPort).map (fun boundary =>
        (keyAt projectId callee (visit.callPath ++ [target.id]) boundary, true)))
  else some (keyAt projectId visit.graph visit.callPath target, false)

def targetOf (toNode toPort : String) : Option (InstanceKey × Bool) :=
  (nodeNamed visit.graph toNode).bind
    (fun target => targetAt project projectId visit target toPort)

def atBoundary (edge : GraphEdge) : GraphEdge :=
  { edge with toPort := graphBoundaryPort, toPlug := none }

/-- The connection an edge becomes, when its source resolves. -/
def connectionOf (edge : GraphEdge) : Option Connection :=
  (sourceOf project projectId visit edge).map
    (fun source => ⟨source.1, { edge with fromPort := source.2 }⟩)

/-- The gain of a key from a feed at this port: nothing unless it arrives. -/
def arriving (key : InstanceKey) (toNode toPort : String) (gain : Bool → Gain) : Gain :=
  match targetOf project projectId visit toNode toPort with
  | none => {}
  | some (targetKey, viaCall) => if key = targetKey then gain viaCall else {}

def edgeGain (key : InstanceKey) (edge : GraphEdge) : Gain :=
  if edge.enabled then
    arriving project projectId visit key edge.toNode edge.toPort (fun viaCall =>
      { connections := (connectionOf project projectId visit
          (if viaCall then atBoundary edge else edge)).toList
        supplied := viaCall })
  else {}

def originAtBoundary (key : InstanceKey) (origin : GraphOrigin) : GraphOrigin :=
  { origin with toNode := key.nodeId, toPort := graphBoundaryPort, toPlug := none }

def originGain (key : InstanceKey) (origin : GraphOrigin) : Gain :=
  arriving project projectId visit key origin.toNode origin.toPort (fun viaCall =>
    { ownOrigins := if viaCall then [] else [origin]
      callerOrigins := if viaCall then [originAtBoundary key origin] else []
      supplied := viaCall })

/-- What a visit adds: its edges first, then its origins. -/
def visitGain (key : InstanceKey) : Gain :=
  let edges := gather visit.graph.document.edges (edgeGain project projectId visit key)
  let origins := gather visit.graph.document.origins (originGain project projectId visit key)
  { connections := edges.connections
    ownOrigins := origins.ownOrigins
    callerOrigins := origins.callerOrigins
    supplied := edges.supplied || origins.supplied }

end Resolution

theorem gain_edges_origins (project : ProjectDocument) (projectId : String) (visit : Visit)
    (item : Pending) (key : InstanceKey) :
    (item.gain (gather visit.graph.document.edges (edgeGain project projectId visit key))).gain
        (gather visit.graph.document.origins (originGain project projectId visit key)) =
      item.gain (visitGain project projectId visit key) := by
  have hedges : ∀ edge, (edgeGain project projectId visit key edge).ownOrigins = [] ∧
      (edgeGain project projectId visit key edge).callerOrigins = [] := by
    intro edge
    unfold edgeGain arriving
    split
    · split
      · simp
      · split_ifs <;> simp
    · simp
  have horigins : ∀ origin, (originGain project projectId visit key origin).connections = [] := by
    intro origin
    unfold originGain arriving
    split
    · rfl
    · split_ifs <;> rfl
  simp [Pending.gain, visitGain, gather, hedges, horigins, Bool.or_assoc]

/-- The visits of a target Graph of a well-formed document. -/
structure Stage (project : ProjectDocument) (target : GraphDefinition) (found : List Visit) :
    Prop where
  wellFormed : WellFormed project
  known : target ∈ project.graphs
  visits : visits project project.graphs.length target [] = .ok found

variable {visit : Visit} {node source : GraphNode}

namespace Stage

variable {project : ProjectDocument} {target : GraphDefinition} {found : List Visit}
  (stage : Stage project target found)
include stage

theorem calls (hvisit : visit ∈ found) : Calls project target visit.callPath visit.graph := by
  obtain ⟨path, hpath, hcalls⟩ := calls_of_mem_visits _ stage.visits visit hvisit
  rw [List.nil_append] at hpath
  rwa [hpath]

theorem mem {graph : GraphDefinition} {path : List String}
    (hcalls : Calls project target path graph) : ⟨graph, path⟩ ∈ found := by
  simpa using mem_visits_of_calls _ stage.visits hcalls

theorem mem_graphs (hvisit : visit ∈ found) : visit.graph ∈ project.graphs :=
  (stage.calls hvisit).mem_graphs stage.known

theorem paths_nodup : (found.map Visit.callPath).Nodup :=
  visits_nodup stage.wellFormed _ stage.known stage.visits

theorem eq_of_callPath {visit' : Visit} (hvisit : visit ∈ found) (hvisit' : visit' ∈ found)
    (h : visit.callPath = visit'.callPath) : visit = visit' :=
  List.inj_on_of_nodup_map stage.paths_nodup hvisit hvisit' h

theorem getGraph (hvisit : visit ∈ found) : project.getGraph visit.graph.id = some visit.graph :=
  getGraph_of_mem stage.wellFormed.ids (stage.mem_graphs hvisit)

theorem get?_indexesOf (hvisit : visit ∈ found) :
    (indexesOf found).get? visit.graph.id = some (index visit.graph) := by
  suffices hgen : ∀ some : List Visit, (∀ v ∈ some, v ∈ found) → ∀ v ∈ some,
      (indexesOf some).get? v.graph.id = .some (index v.graph) from
    hgen found (fun v hv => hv) visit hvisit
  intro list
  induction list using List.reverseRecOn with
  | nil => simp
  | append_singleton init last ih =>
    intro hmem v hv
    have hlast := hmem last (by simp)
    simp only [indexesOf, List.foldl_append, List.foldl_cons, List.foldl_nil]
    rw [Dict.get?_set]
    split_ifs with hid
    · have hgraph := stage.getGraph (hmem v hv)
      rw [hid, stage.getGraph hlast] at hgraph
      rw [Option.some.inj hgraph]
    · rcases mem_snoc.mp hv with hv | rfl
      · exact ih (fun w hw => hmem w (List.mem_append_left _ hw)) v hv
      · exact absurd rfl hid

/-- A call node of a visited Graph opens a visit of its callee. -/
theorem callee (hvisit : visit ∈ found) (hnode : node ∈ visit.graph.document.nodes)
    (hcall : isCall node) :
    ∃ callee, project.getGraph node.operatorId = some callee ∧
      ⟨callee, visit.callPath ++ [node.id]⟩ ∈ found ∧
      calleeIndex (indexesOf found) node = .ok (index callee) := by
  obtain ⟨callee, -, hcallee⟩ :=
    exists_callee stage.wellFormed (stage.mem_graphs hvisit) hnode hcall
  have hmem := stage.mem ((stage.calls hvisit).call hnode hcall hcallee)
  have hindex := stage.get?_indexesOf hmem
  simp only [getGraph_id hcallee] at hindex
  exact ⟨callee, hcallee, hmem, by simp [calleeIndex, hindex]⟩

theorem edgeSource_eq (hvisit : visit ∈ found) (hsource : source ∈ visit.graph.document.nodes)
    (projectId fromPort : String) :
    edgeSource projectId (indexesOf found) (index visit.graph) visit.callPath source fromPort =
      .ok (sourceAt project projectId visit source fromPort) := by
  cases hcall : isCall source with
  | false => simp [edgeSource, sourceAt, hcall]
  | true =>
    obtain ⟨callee, hcallee, -, hindex⟩ := stage.callee hvisit hsource hcall
    simp [edgeSource, sourceAt, hcall, hcallee, hindex, declaredOutput, bind, Except.bind, pure,
      Except.pure]

theorem callTarget_eq (hvisit : visit ∈ found) (hnode : node ∈ visit.graph.document.nodes)
    (hcall : isCall node) (projectId toPort : String) :
    ∃ callee, project.getGraph node.operatorId = some callee ∧
      ⟨callee, visit.callPath ++ [node.id]⟩ ∈ found ∧
      callTarget projectId (indexesOf found) visit.callPath node toPort =
        .ok ((declaredInput callee toPort).map (fun boundary =>
          (boundary, keyAt projectId callee (visit.callPath ++ [node.id]) boundary))) := by
  obtain ⟨callee, hcallee, hmem, hindex⟩ := stage.callee hvisit hnode hcall
  refine ⟨callee, hcallee, hmem, ?_⟩
  simp [callTarget, hindex, declaredInput, bind, Except.bind, pure, Except.pure]

end Stage

variable {pending : Dict InstanceKey Pending}

section Loops

theorem amend_eq (hnodup : pending.keys.Nodup) {key : InstanceKey} (hkey : key ∈ pending.keys)
    (change : Pending → Pending) :
    amend pending key change =
      .ok (pending.mapValues (fun k item => if k = key then change item else item)) := by
  obtain ⟨item, hitem⟩ := Option.isSome_iff_exists.mp (Dict.get?_isSome_of_mem_keys hkey)
  simp only [amend, hitem]
  rw [Dict.set_eq_mapValues hnodup hitem]

theorem foldlM_gain {A E : Type*} {g : InstanceKey → A → Gain}
    {turn : Dict InstanceKey Pending → A → Except E (Dict InstanceKey Pending)} {l : List A}
    (hturn : ∀ a ∈ l, ∀ u : Dict InstanceKey Pending, u.keys = pending.keys →
      turn u a = .ok (u.mapValues (fun key item => item.gain (g key a)))) :
    l.foldlM turn pending =
      .ok (pending.mapValues (fun key item => item.gain (gather l (g key)))) := by
  have hfold := foldlM_eq_foldl (fun u => u.keys = pending.keys) rfl
    (fun a ha u hu => ⟨hturn a ha u hu, by simpa using hu⟩)
  rw [hfold.1, Dict.foldl_mapValues]
  congr 2
  funext key item
  exact foldl_gain (g key) l item

variable {project : ProjectDocument} {target : GraphDefinition} {found : List Visit}
  {projectId : String}

/-- The keys under which the loops find every instance. -/
structure Keyed (projectId : String) (found : List Visit) (keys : List InstanceKey) : Prop where
  nodup : keys.Nodup
  covers : ∀ visit ∈ found, ∀ node ∈ visit.graph.document.nodes, isCall node = false →
    keyAt projectId visit.graph visit.callPath node ∈ keys

variable (stage : Stage project target found) (hkeys : Keyed projectId found pending.keys)
  (hvisit : visit ∈ found)
include stage hkeys hvisit

theorem wireSource_eq (hsource : source ∈ visit.graph.document.nodes) {targetKey : InstanceKey}
    (htarget : targetKey ∈ pending.keys) (edge : GraphEdge) :
    wireSource projectId (indexesOf found) (index visit.graph) visit.callPath source targetKey edge
        pending =
      .ok (pending.mapValues (fun key item => if key = targetKey then
        item.gain { connections := ((sourceAt project projectId visit source edge.fromPort).map
          (fun s => (⟨s.1, { edge with fromPort := s.2 }⟩ : Connection))).toList } else item)) := by
  simp only [wireSource, stage.edgeSource_eq hvisit hsource, bind, Except.bind]
  cases hs : sourceAt project projectId visit source edge.fromPort with
  | none => simp [pure, Except.pure, Dict.mapValues]
  | some s =>
    simp only [amend_eq hkeys.nodup htarget]
    simp [Pending.gain, connect]

theorem wireEdge_eq {edge : GraphEdge} (hedge : edge ∈ visit.graph.document.edges) :
    wireEdge projectId (indexesOf found) (index visit.graph) visit.callPath pending edge =
      .ok (pending.mapValues (fun key item =>
        item.gain (edgeGain project projectId visit key edge))) := by
  have hgraph := stage.mem_graphs hvisit
  obtain ⟨hfrom, hto⟩ := (stage.wellFormed.anchored visit.graph hgraph).edges edge hedge
  obtain ⟨source, hsource, hsourceid⟩ := List.mem_map.mp hfrom
  obtain ⟨node, hnode, hnodeid⟩ := List.mem_map.mp hto
  have hsourcenamed := (nodeNamed_iff stage.wellFormed hgraph).mpr ⟨hsource, hsourceid⟩
  have hnodenamed := (nodeNamed_iff stage.wellFormed hgraph).mpr ⟨hnode, hnodeid⟩
  have hnothing : (.ok pending : Except ExpansionError _) =
      .ok (pending.mapValues (fun _ item => item.gain {})) := by simp [Dict.mapValues]
  cases henabled : edge.enabled with
  | false =>
    simp only [wireEdge, edgeGain, henabled, Bool.false_eq_true, ↓reduceIte]
    exact hnothing
  | true =>
    simp only [nodeNamed] at hsourcenamed hnodenamed
    simp only [wireEdge, henabled, ↓reduceIte, hnodenamed, hsourcenamed]
    cases hcall : isCall node with
    | false =>
      have hkey := hkeys.covers visit hvisit node hnode hcall
      simp only [Bool.false_eq_true, ↓reduceIte]
      rw [index_graph, wireSource_eq stage hkeys hvisit hsource hkey]
      congr 2
      funext key item
      simp only [edgeGain, arriving, henabled, ↓reduceIte, targetOf, targetAt, nodeNamed,
        hnodenamed,
        Option.bind_some, hcall, Bool.false_eq_true, connectionOf, sourceOf, hsourcenamed]
      split_ifs <;> simp
    | true =>
      obtain ⟨callee, hcallee, hmem, htarget⟩ :=
        stage.callTarget_eq hvisit hnode hcall projectId edge.toPort
      simp only [↓reduceIte, htarget, bind, Except.bind]
      cases hinput : declaredInput callee edge.toPort with
      | none =>
        simp only [Option.map_none, pure, Except.pure]
        rw [hnothing]
        congr 2
        funext key item
        simp [edgeGain, arriving, henabled, targetOf, targetAt, nodeNamed, hnodenamed, hcall,
          hcallee, hinput]
      | some boundary =>
        obtain ⟨hboundary, hin, -⟩ :=
          (declaredInput_iff stage.wellFormed (stage.mem_graphs hmem)).mp hinput
        have hbcall := isCall_of_boundary stage.wellFormed (stage.mem_graphs hmem) hboundary
          (Or.inl hin)
        have hkey := hkeys.covers _ hmem boundary hboundary hbcall
        simp only [Option.map_some, amend_eq hkeys.nodup hkey]
        rw [wireSource_eq stage (by simpa using hkeys) hvisit hsource (by simpa using hkey)]
        simp only [Dict.mapValues, List.map_map]
        congr 2
        funext entry
        simp only [Function.comp_apply, edgeGain, arriving, henabled, ↓reduceIte, targetOf,
          targetAt, nodeNamed, hnodenamed, Option.bind_some, hcall, hcallee, hinput,
          Option.map_some, connectionOf, sourceOf, hsourcenamed, atBoundary]
        split_ifs <;> simp [Pending.gain, supply]

theorem wireOrigin_eq {origin : GraphOrigin} (horigin : origin ∈ visit.graph.document.origins) :
    wireOrigin projectId (indexesOf found) (index visit.graph) visit.callPath pending origin =
      .ok (pending.mapValues (fun key item =>
        item.gain (originGain project projectId visit key origin))) := by
  have hgraph := stage.mem_graphs hvisit
  have hto := (stage.wellFormed.anchored visit.graph hgraph).origins origin horigin
  obtain ⟨node, hnode, hnodeid⟩ := List.mem_map.mp hto
  have hnodenamed := (nodeNamed_iff stage.wellFormed hgraph).mpr ⟨hnode, hnodeid⟩
  simp only [nodeNamed] at hnodenamed
  simp only [wireOrigin, hnodenamed]
  cases hcall : isCall node with
  | false =>
    have hkey := hkeys.covers visit hvisit node hnode hcall
    simp only [Bool.false_eq_true, ↓reduceIte]
    rw [index_graph, amend_eq hkeys.nodup hkey]
    congr 2
    funext key item
    simp only [originGain, arriving, targetOf, targetAt, nodeNamed, hnodenamed, Option.bind_some,
      hcall, Bool.false_eq_true, ↓reduceIte]
    split_ifs <;> simp [Pending.gain, holdOrigin]
  | true =>
    obtain ⟨callee, hcallee, hmem, htarget⟩ :=
      stage.callTarget_eq hvisit hnode hcall projectId origin.toPort
    simp only [↓reduceIte, htarget, bind, Except.bind]
    cases hinput : declaredInput callee origin.toPort with
    | none =>
      simp [originGain, arriving, targetOf, targetAt, nodeNamed, hnodenamed, hcall, hcallee, hinput,
        pure, Except.pure, Dict.mapValues]
    | some boundary =>
      obtain ⟨hboundary, hin, -⟩ :=
        (declaredInput_iff stage.wellFormed (stage.mem_graphs hmem)).mp hinput
      have hbcall := isCall_of_boundary stage.wellFormed (stage.mem_graphs hmem) hboundary
        (Or.inl hin)
      have hkey := hkeys.covers _ hmem boundary hboundary hbcall
      simp only [Option.map_some, amend_eq hkeys.nodup hkey]
      congr 2
      funext key item
      simp only [originGain, arriving, targetOf, targetAt, nodeNamed, hnodenamed, Option.bind_some,
        hcall, ↓reduceIte, hcallee, hinput, Option.map_some]
      split_ifs with heq
      · subst heq
        simp [Pending.gain, supplyOrigin, originAtBoundary, keyAt]
      · simp

theorem wireEdges_eq :
    wireEdges projectId (indexesOf found) (index visit.graph) visit.callPath pending =
      .ok (pending.mapValues (fun key item => item.gain
        (gather visit.graph.document.edges (edgeGain project projectId visit key)))) := by
  rw [wireEdges, index_graph]
  exact foldlM_gain (g := edgeGain project projectId visit)
    (fun edge hedge u hu => wireEdge_eq stage (hu ▸ hkeys) hvisit hedge)

theorem wireOrigins_eq :
    wireOrigins projectId (indexesOf found) (index visit.graph) visit.callPath pending =
      .ok (pending.mapValues (fun key item => item.gain
        (gather visit.graph.document.origins (originGain project projectId visit key)))) := by
  rw [wireOrigins, index_graph]
  exact foldlM_gain (g := originGain project projectId visit)
    (fun origin horigin u hu => wireOrigin_eq stage (hu ▸ hkeys) hvisit horigin)

theorem wireVisit_eq :
    wireVisit projectId (indexesOf found) pending visit =
      .ok (pending.mapValues (fun key item =>
        item.gain (visitGain project projectId visit key))) := by
  simp only [wireVisit, stage.get?_indexesOf hvisit, wireEdges_eq stage hkeys hvisit, bind,
    Except.bind]
  rw [wireOrigins_eq stage (by simpa using hkeys) hvisit]
  simp only [Dict.mapValues, List.map_map, Function.comp_def]
  congr 2
  funext entry
  rw [gain_edges_origins]

omit hvisit in
/-- The wiring as a whole: no lookup fails, and every instance gains what the
visits have for it. -/
theorem wireVisits_eq :
    found.foldlM (wireVisit projectId (indexesOf found)) pending =
      .ok (pending.mapValues (fun key item =>
        item.gain (gather found (fun visit => visitGain project projectId visit key)))) := by
  exact foldlM_gain (g := fun key visit => visitGain project projectId visit key)
    (fun visit hvisit u hu => wireVisit_eq stage (hu ▸ hkeys) hvisit)

end Loops

end Grafy.Expansion
