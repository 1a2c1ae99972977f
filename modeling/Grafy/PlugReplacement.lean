import Grafy.CommandValidity
import Grafy.ExclusiveSlots

/-!
Replacing the input plugs of a node. The edges and origins of the node survive
by plug id alone, while the rules of a document also tie a plug to its port. So
the replacement is accepted unless a feed keeps an id that now belongs to
another port, and then it takes away exactly the feeds whose plug id is gone.
-/
namespace Grafy.Commands

open CanonicalJson DocumentRules GraphDocuments Loops OrderedDict Project

section Replacing

/-- The two commands that replace the plugs of a node, with what they expect of
it, and what they make of it. -/
inductive Replacing (node : GraphNode) (plugs : List GraphInputPlug) :
    GraphCommand → (GraphNode → GraphNode) → Prop
  | plugs {expectedIds : List String} : plugIds node.inputPlugs = expectedIds →
      Replacing node plugs (.setNodeInputPlugs node.id plugs expectedIds)
        (fun held => { held with inputPlugs := plugs })
  | configuration {config expectedConfig : Dict String Json} {expectedIds : List String} :
      jsonEqual (.obj node.config) (.obj expectedConfig) → plugIds node.inputPlugs = expectedIds →
      Replacing node plugs
        (.updateNodeConfigurationAndInputPlugs node.id config plugs expectedConfig expectedIds)
        (fun held => { held with config := config, inputPlugs := plugs })

variable (document : GraphDocument) (nodeId : String) (plugs : List GraphInputPlug)

/-- The feed ends at a plug of the node whose id is not among the new plugs. -/
def Stranded (toNode : String) (toPlug : Option String) : Prop :=
  toNode = nodeId ∧ ∃ plug ∈ toPlug, plug ∉ plugIds plugs

/-- The feed ends at a plug of the node whose id the new plugs give to another
port. -/
def Moved (toNode toPort : String) (toPlug : Option String) : Prop :=
  toNode = nodeId ∧ ∃ plug ∈ plugs, plug.id ∈ toPlug ∧ plug.port ≠ toPort

def MovesFeed : Prop :=
  (∃ edge ∈ document.edges, Moved nodeId plugs edge.toNode edge.toPort edge.toPlug) ∨
    ∃ origin ∈ document.origins, Moved nodeId plugs origin.toNode origin.toPort origin.toPlug

/-- The documents differ in the node, as it is changed, and in the feeds of it
that are stranded. What is left stands in the order it stood in. -/
structure PlugsReplaced (change : GraphNode → GraphNode) (result : GraphDocument) : Prop where
  agents : result.agents = document.agents
  nodes : result.nodes = document.nodes.map
    (fun node => if node.id = nodeId then change node else node)
  edges : result.edges.Sublist document.edges
  edgesLeft : ∀ edge, edge ∈ result.edges ↔
    edge ∈ document.edges ∧ ¬ Stranded nodeId plugs edge.toNode edge.toPlug
  origins : result.origins.Sublist document.origins
  originsLeft : ∀ origin, origin ∈ result.origins ↔
    origin ∈ document.origins ∧ ¬ Stranded nodeId plugs origin.toNode origin.toPlug
  presentation : result.presentation = document.presentation

/-- The document the replacement asks for. -/
def replaced (change : GraphNode → GraphNode) : GraphDocument :=
  { document with
    nodes := editNode document nodeId change
    edges := survivingEdges document nodeId (plugIds plugs)
    origins := survivingOrigins document nodeId (plugIds plugs) }

variable {document nodeId plugs} {change : GraphNode → GraphNode} {toNode : String}
  {toPlug : Option String}

theorem survives_iff :
    (toNode ≠ nodeId ∨ toPlug = none ∨ ∃ plug ∈ toPlug, plug ∈ plugIds plugs) ↔
      ¬ Stranded nodeId plugs toNode toPlug := by
  cases toPlug with
  | none => simp [Stranded]
  | some plug =>
    by_cases hnode : toNode = nodeId <;> simp [Stranded, hnode]

theorem mem_survivingEdges {edge : GraphEdge} :
    edge ∈ survivingEdges document nodeId (plugIds plugs) ↔
      edge ∈ document.edges ∧ ¬ Stranded nodeId plugs edge.toNode edge.toPlug := by
  rw [survivingEdges, List.mem_filter, decide_eq_true_eq, survives_iff]

theorem mem_survivingOrigins {origin : GraphOrigin} :
    origin ∈ survivingOrigins document nodeId (plugIds plugs) ↔
      origin ∈ document.origins ∧ ¬ Stranded nodeId plugs origin.toNode origin.toPlug := by
  rw [survivingOrigins, List.mem_filter, decide_eq_true_eq, survives_iff]

theorem replaced_differs : PlugsReplaced document nodeId plugs change
    (replaced document nodeId plugs change) :=
  ⟨rfl, rfl, List.filter_sublist, fun _ => mem_survivingEdges, List.filter_sublist,
    fun _ => mem_survivingOrigins, rfl⟩

theorem nodeIds_replaced (hid : ∀ node, (change node).id = node.id) :
    nodeIds (replaced document nodeId plugs change) = nodeIds document := by
  simp only [nodeIds, replaced, editNode, List.map_map]
  apply List.map_congr_left
  intro node _
  simp only [Function.comp_apply]
  split_ifs
  · exact hid node
  · rfl

variable {node : GraphNode}
    (hnode : document.nodes.find? (fun held => held.id = nodeId) = some node)
  (hid : ∀ held, (change held).id = held.id) (hplugs : ∀ held, (change held).inputPlugs = plugs)
include hid

theorem find?_replaced (other : String) :
    (replaced document nodeId plugs change).nodes.find? (fun held => held.id = other) =
      (document.nodes.find? (fun held => held.id = other)).map
        (fun held => if held.id = nodeId then change held else held) := by
  simp only [replaced, editNode, List.find?_map]
  congr 2
  funext held
  simp only [Function.comp_apply]
  split_ifs
  · rw [hid held]
  · rfl

theorem plugOf_elsewhere {other : String} (hother : other ≠ nodeId) (plug : String) :
    plugOf (replaced document nodeId plugs change) other plug = plugOf document other plug := by
  unfold plugOf
  rw [find?_replaced hid]
  cases hfind : document.nodes.find? (fun held => held.id = other) with
  | none => rfl
  | some held =>
    have hheld : held.id = other := by simpa using List.find?_some hfind
    simp [hheld, hother]

include hnode hplugs

theorem plugOf_replaced (plug : String) :
    plugOf (replaced document nodeId plugs change) nodeId plug =
    plugs.find? (fun held => held.id = plug) := by
  have hheld : node.id = nodeId := by simpa using List.find?_some hnode
  unfold plugOf
  rw [find?_replaced hid, hnode]
  simp [hheld, hplugs]

/-- A surviving feed keeps its port unless its plug id has moved. -/
theorem portOf_replaced_iff (hnodup : (plugIds plugs).Nodup) {toPort : String}
    (hport : PortOf document toNode toPort toPlug)
    (hsurvives : ¬ Stranded nodeId plugs toNode toPlug) :
    PortOf (replaced document nodeId plugs change) toNode toPort toPlug ↔
      ¬ Moved nodeId plugs toNode toPort toPlug := by
  by_cases hhere : toNode = nodeId
  · subst hhere
    cases toPlug with
    | none => simp [PortOf, Moved]
    | some id =>
      have hkept : id ∈ plugIds plugs := by
        by_contra hgone
        exact hsurvives ⟨rfl, id, rfl, hgone⟩
      obtain ⟨plug, hplug, rfl⟩ := List.mem_map.mp hkept
      have hfind : plugs.find? (fun held => held.id = plug.id) = some plug :=
        find?_by_key GraphInputPlug.id hnodup hplug
      have hone : PortOf (replaced document toNode plugs change) toNode toPort (some plug.id) ↔
          plug.port = toPort := by
        simp [PortOf, plugOf_replaced hnode hid hplugs, hfind]
      rw [hone]
      constructor
      · rintro hsame ⟨-, other, hother, hotherid, hdiffers⟩
        have hid' : other.id = plug.id := by simpa using hotherid.symm
        obtain rfl := List.inj_on_of_nodup_map hnodup hother hplug hid'
        exact hdiffers hsame
      · intro hnot
        by_contra hdiffers
        exact hnot ⟨rfl, plug, hplug, rfl, hdiffers⟩
  · have hsame : PortOf (replaced document nodeId plugs change) toNode toPort toPlug ↔
        PortOf document toNode toPort toPlug := by
      simp only [PortOf, plugOf_elsewhere hid hhere]
    rw [hsame]
    exact iff_of_true hport (fun hmoved => hhere hmoved.1)

/-- The replaced document is accepted unless a feed's plug id has moved. -/
theorem replaced_accepted_iff (haccepted : Accepted document) (hnodup : (plugIds plugs).Nodup) :
    Accepted (replaced document nodeId plugs change) ↔ ¬ MovesFeed document nodeId plugs := by
  have hstays : ∀ {toNode toPort : String} {toPlug : Option String},
      Moved nodeId plugs toNode toPort toPlug → ¬ Stranded nodeId plugs toNode toPlug := by
    rintro toNode toPort toPlug ⟨-, plug, hplug, hid, -⟩ ⟨-, other, hother, hgone⟩
    obtain rfl : other = plug.id := Option.some.inj (hother.symm.trans hid)
    exact hgone (List.mem_map_of_mem hplug)
  constructor
  · rintro h (⟨edge, hedge, hmoved⟩ | ⟨origin, horigin, hmoved⟩)
    · have hport := h.exclusive.edgePorts edge (mem_survivingEdges.mpr ⟨hedge, hstays hmoved⟩)
      exact (portOf_replaced_iff hnode hid hplugs hnodup (haccepted.exclusive.edgePorts edge hedge)
        (hstays hmoved)).mp hport hmoved
    · have hport :=
        h.exclusive.originPorts origin (mem_survivingOrigins.mpr ⟨horigin, hstays hmoved⟩)
      exact (portOf_replaced_iff hnode hid hplugs hnodup
        (haccepted.exclusive.originPorts origin horigin)
        (hstays hmoved)).mp hport hmoved
  · intro hnone
    have hids : nodeIds (replaced document nodeId plugs change) = nodeIds document :=
      nodeIds_replaced hid
    have hsubedges : (replaced document nodeId plugs change).edges.Sublist document.edges :=
      List.filter_sublist
    have hsuborigins : (replaced document nodeId plugs change).origins.Sublist document.origins :=
      List.filter_sublist
    refine ⟨haccepted.agentIds, haccepted.edgeIds.sublist (hsubedges.map _),
      haccepted.originIds.sublist (hsuborigins.map _), ?_, ⟨?_, ?_, ?_⟩, ⟨?_, ?_, ?_, ?_, ?_⟩, ?_⟩
    · refine forall_editNode haccepted.plugIds (fun held _ => ?_)
      rw [hplugs held]
      exact hnodup
    · rw [hids]
      exact haccepted.anchored.nodeIds
    · intro edge hedge
      rw [hids]
      exact haccepted.anchored.edges edge (hsubedges.subset hedge)
    · intro origin horigin
      rw [hids]
      exact haccepted.anchored.origins origin (hsuborigins.subset horigin)
    · intro edge hedge
      obtain ⟨hold, hsurvives⟩ := mem_survivingEdges.mp hedge
      exact (portOf_replaced_iff hnode hid hplugs hnodup (haccepted.exclusive.edgePorts edge hold)
        hsurvives).mpr (fun hmoved => hnone (Or.inl ⟨edge, hold, hmoved⟩))
    · intro origin horigin
      obtain ⟨hold, hsurvives⟩ := mem_survivingOrigins.mp horigin
      exact (portOf_replaced_iff hnode hid hplugs hnodup
        (haccepted.exclusive.originPorts origin hold)
        hsurvives).mpr (fun hmoved => hnone (Or.inr ⟨origin, hold, hmoved⟩))
    · exact haccepted.exclusive.plugs.sublist (hsubedges.filterMap _)
    · exact haccepted.exclusive.origins.sublist (hsuborigins.map _)
    · intro edge hedge henabled origin horigin
      exact haccepted.exclusive.apart edge (hsubedges.subset hedge) henabled origin
        (hsuborigins.subset horigin)
    · intro link hlink
      rw [hids]
      exact haccepted.links link hlink

end Replacing

section Commands

variable (destination : String → Option String) {document : GraphDocument} {node : GraphNode}
  {plugs : List GraphInputPlug} {command : GraphCommand} {change : GraphNode → GraphNode}

section

variable (h : Replacing node plugs command change)
include h

theorem Replacing.change_id (held : GraphNode) : (change held).id = held.id := by
  cases h <;> rfl

theorem Replacing.change_plugs (held : GraphNode) : (change held).inputPlugs = plugs := by
  cases h <;> rfl

/-- With its expectations met a replacement is decided by the rules of the
document it asks for. -/
theorem applyGraphCommand_replacing
    (hnode : document.nodes.find? (fun held => held.id = node.id) = some node) :
    applyGraphCommand destination document command =
      buildDocument (replaced document node.id plugs change) := by
  have hfound := nodeOrRaise_ok.mpr hnode
  cases h with
  | plugs hids => simp [applyGraphCommand, hfound, checkPlugIds, hids, require, bind, Except.bind,
      replacePlugs, replaced]
  | configuration hconfig hids =>
    simp [applyGraphCommand, hfound, checkPlugIds, hids, hconfig, require,
      bind, Except.bind, replacePlugs, replaced]

end

/-- A Graph given a document with the same nodes keeps its refresh
generations. -/
theorem withDocument_sameNodes {graph : GraphDefinition} (h : validateGraph graph = .ok ())
    {result : GraphDocument} (hids : nodeIds result = nodeIds graph.document) :
    withDocument result graph = { graph with document := result } := by
  have hkept : graph.refreshGenerations.filter (fun entry => entry.1 ∈ nodeIds result) =
      graph.refreshGenerations := by
    rw [List.filter_eq_self]
    intro entry hentry
    rw [hids]
    exact decide_eq_true (mem_nodeIds_of_key h (List.mem_map_of_mem hentry))
  simp only [withDocument, hkept]

/-- A replacement of plugs whose expectations hold is accepted unless a feed of
the node keeps a plug id that now belongs to another port. It then changes the
node and takes away the feeds whose plug id is gone, and nothing else, neither
in the document nor in its Project; otherwise it is rejected as invalid. -/
theorem plug_replacement_exact (hvalid : validateStructure document = .ok ())
    (hnode : node ∈ document.nodes) (hplugs : (plugIds plugs).Nodup)
    (hcommand : Replacing node plugs command change) :
    ((∃ result, applyGraphCommand destination document command = .ok result) ↔
        ¬ MovesFeed document node.id plugs) ∧
      (MovesFeed document node.id plugs → ∃ error,
        applyGraphCommand destination document command = .error (.invalidDocument error)) ∧
      (∀ result, applyGraphCommand destination document command = .ok result →
        PlugsReplaced document node.id plugs change result) ∧
      ∀ (casefold : String → String) (name graphId : String) (project : ProjectDocument)
        (graph : GraphDefinition) (next : String × ProjectDocument), project.Valid casefold →
        project.getGraph graphId = some graph → graph.document = document →
        applyProjectCommand casefold destination name project
          (.inGraph graphId command) = .ok next →
        ∃ result, PlugsReplaced document node.id plugs change result ∧
          next = (name, ⟨project.graphs.map (fun held =>
            if held.id = graphId then { held with document := result } else held)⟩) := by
  have haccepted := validateStructure_iff.mp hvalid
  have hfind : document.nodes.find? (fun held => held.id = node.id) = some node :=
    find?_by_key GraphNode.id haccepted.anchored.nodeIds hnode
  have hiff := replaced_accepted_iff hfind hcommand.change_id hcommand.change_plugs haccepted hplugs
  have happly : applyGraphCommand destination document command =
      buildDocument (replaced document node.id plugs change) :=
    applyGraphCommand_replacing destination hcommand hfind
  have hresult : ∀ result, applyGraphCommand destination document command = .ok result →
      result = replaced document node.id plugs change := by
    intro result h
    rw [happly] at h
    exact (buildDocument_ok.mp h).2
  refine ⟨?_, ?_, ?_, ?_⟩
  · rw [happly, ← hiff, ← validateStructure_iff]
    simp only [buildDocument_ok]
    exact ⟨fun ⟨_, hrules, _⟩ => hrules, fun hrules => ⟨_, hrules, rfl⟩⟩
  · intro hmoves
    cases hstructure : validateStructure (replaced document node.id plugs change) with
    | ok u => exact absurd hmoves (hiff.mp (validateStructure_iff.mp hstructure))
    | error error =>
      refine ⟨.structure error, ?_⟩
      rw [happly]
      simp [buildDocument, accepted, hstructure, Except.mapError, bind, Except.bind]
  · intro result h
    rw [hresult result h]
    exact replaced_differs
  · intro casefold name graphId project graph next hproject hgraph hdocument h
    cases applyProjectCommand_step h with
    | inGraph hgraph' happlied =>
      cases hgraph.symm.trans hgraph'
      rw [hdocument] at happlied
      obtain rfl := hresult _ happlied
      refine ⟨_, replaced_differs, ?_⟩
      unfold changed
      congr 2
      apply List.map_congr_left
      intro held hheld
      by_cases hid : held.id = graphId
      · rw [if_pos hid, if_pos hid]
        obtain ⟨hmem, hgraphid⟩ := mem_graphs_of_getGraph hgraph
        obtain rfl : held = graph := List.inj_on_of_nodup_map hproject.wellFormed.ids hheld hmem
          (hid.trans hgraphid.symm)
        refine withDocument_sameNodes (hproject.graphs held hheld) ?_
        rw [hdocument]
        exact nodeIds_replaced hcommand.change_id
      · rw [if_neg hid, if_neg hid]

end Commands

section Example

/-- A node with a plug at one port, and an edge that ends at it. -/
def pluggedNode (port : String) : GraphNode :=
  ⟨.builtin, "n", "op", 1, [], default, none, [⟨"p", port⟩], []⟩

def pluggedEdge : GraphEdge := ⟨"e", false, "n", "out", "n", "a", some "p", .direct, none, [], none⟩

def pluggedDocument : GraphDocument := ⟨[], [pluggedNode "a"], [pluggedEdge], [], ⟨[], [], [], []⟩⟩

/-- Without its plug the edge goes with it. -/
theorem dropped_plug_accepted : ∃ result,
    applyGraphCommand some pluggedDocument (.setNodeInputPlugs "n" [⟨"q", "a"⟩] ["p"]) =
      .ok result ∧
      result.edges = [] := by
  obtain ⟨haccepted, -, hresult, -⟩ := plug_replacement_exact some
    (show validateStructure pluggedDocument = .ok () by rfl)
    (List.mem_singleton.mpr (rfl : pluggedNode "a" = pluggedNode "a"))
    (show (plugIds [⟨"q", "a"⟩]).Nodup by decide) (.plugs rfl)
  obtain ⟨result, happly⟩ := haccepted.mpr (by
    rintro (⟨edge, hedge, -, plug, hplug, hid, -⟩ | ⟨origin, horigin, -⟩)
    · obtain rfl := List.mem_singleton.mp hedge
      obtain rfl := List.mem_singleton.mp hplug
      simp [pluggedEdge] at hid
    · simp [pluggedDocument] at horigin)
  refine ⟨result, happly, List.eq_nil_iff_forall_not_mem.mpr ?_⟩
  intro edge hedge
  obtain ⟨hold, hsurvives⟩ := ((hresult result happly).edgesLeft edge).mp hedge
  obtain rfl := List.mem_singleton.mp hold
  exact hsurvives ⟨rfl, "p", rfl, by decide⟩

/-- A plug that moves to another port keeps its edge from following, and the
command is rejected. -/
theorem moved_plug_rejected : validateStructure pluggedDocument = .ok () ∧
    (plugIds [⟨"p", "b"⟩]).Nodup ∧
    Replacing (pluggedNode "a") [⟨"p", "b"⟩] (.setNodeInputPlugs "n" [⟨"p", "b"⟩] ["p"])
      (fun held => { held with inputPlugs := [⟨"p", "b"⟩] }) ∧
    applyGraphCommand some pluggedDocument (.setNodeInputPlugs "n" [⟨"p", "b"⟩] ["p"]) =
      .error (.invalidDocument (.structure (.edgePlugPort "e" "a" "p" "b"))) :=
  ⟨rfl, by decide, .plugs rfl, rfl⟩

end Example

end Grafy.Commands
