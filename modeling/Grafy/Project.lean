import Grafy.DocumentRules
import Grafy.TopologicalSort

/-!
The Project document: named Graphs and the calls between them. A call node
places a sibling Graph, whose boundary nodes declare its interface by public
name. A document is accepted when every Graph keeps its own rules, ids and
names are unique, every callee exists and no Graph calls itself through
others. Case folding of names is a parameter.
-/
namespace Grafy.Project

open CanonicalJson DocumentRules GraphDocuments Loops OrderedDict TopologicalSort

def graphInputOperatorId : String := "graph.input"

def graphOutputOperatorId : String := "graph.output"

def graphBoundaryOperatorVersion : ℕ := 1

def graphBoundaryPort : String := "value"

def callNodeOperatorVersion : ℕ := 1

structure GraphDefinition where
  id : String
  name : String
  document : GraphDocument
  refreshGenerations : Dict String ℕ

structure ProjectDocument where
  graphs : List GraphDefinition

def isBoundary (node : GraphNode) : Bool :=
  node.operatorId = graphInputOperatorId ∨ node.operatorId = graphOutputOperatorId

def isCall (node : GraphNode) : Bool := node.kind = .call

/-- The public name a boundary node contributes to its Graph's interface. -/
def publicName (node : GraphNode) : String :=
  match node.config.get? "public_name" with
  | some (.str name) => name
  | _ => ""

def sortedTexts (texts : List String) : List String := texts.insertionSort (· ≤ ·)

section Graphs

inductive Direction
  | input
  | output
  deriving DecidableEq

/-- The ValueErrors of `validate_graph`, by what they name. -/
inductive GraphError
  | unknownRefreshNode (graph node : String)
  | boundaryKind (graph node : String)
  | boundaryVersion (graph node : String)
  | boundaryKeys (graph node : String) (keys : List String)
  | boundaryName (graph node : String)
  | outputRequired (graph node : String)
  | requiredNotBoolean (graph node : String)
  | descriptionNotText (graph node : String)
  | declaredTwice (graph : String) (direction : Direction) (name first second : String)
  deriving DecidableEq

/-- `^[a-z][a-z0-9_]*$`, where the end may stand before a last line feed. -/
def matchesPublicName (name : String) : Bool :=
  let isNameChar (c : Char) : Bool := c.isLower || c.isDigit || c = '_'
  match name.toList with
  | [] => false
  | first :: rest =>
    first.isLower &&
      (rest.all isNameChar || (rest.getLast? = some '\n' && rest.dropLast.all isNameChar))

def directionOf (node : GraphNode) : Direction :=
  if node.operatorId = graphInputOperatorId then .input else .output

/-- The place of a boundary node in its Graph's interface. -/
def interfaceSlot (node : GraphNode) : Direction × String := (directionOf node, publicName node)

def isBoolean : Option Json → Bool
  | none => true
  | some (.bool _) => true
  | some _ => false

def isText : Option Json → Bool
  | none => true
  | some .null => true
  | some (.str _) => true
  | some _ => false

def checkBoundary (graphId : String) (publicNames : Dict (Direction × String) String)
    (node : GraphNode) : Except GraphError (Dict (Direction × String) String) :=
  if isBoundary node then do
    let unknownKeys := node.config.keys.filter (· ∉ ["public_name", "required", "description"])
    require (node.kind = .builtin) (.boundaryKind graphId node.id)
    require (node.operatorVersion = graphBoundaryOperatorVersion)
      (.boundaryVersion graphId node.id)
    require (unknownKeys = []) (.boundaryKeys graphId node.id (sortedTexts unknownKeys))
    require (matchesPublicName (publicName node)) (.boundaryName graphId node.id)
    require (¬ (directionOf node = .output ∧ (node.config.get? "required").isSome))
      (.outputRequired graphId node.id)
    require (isBoolean (node.config.get? "required")) (.requiredNotBoolean graphId node.id)
    require (isText (node.config.get? "description")) (.descriptionNotText graphId node.id)
    require (publicNames.get? (interfaceSlot node) = none) (.declaredTwice graphId
      (directionOf node) (publicName node) ((publicNames.get? (interfaceSlot node)).getD "")
        node.id)
    return publicNames.set (interfaceSlot node) node.id
  else .ok publicNames

def checkRefreshNode (graph : GraphDefinition) (nodeId : String) : Except GraphError Unit :=
  require (nodeId ∈ nodeIds graph.document) (.unknownRefreshNode graph.id nodeId)

def validateGraph (graph : GraphDefinition) : Except GraphError Unit := do
  let _ ← (sortedTexts graph.refreshGenerations.keys).mapM (checkRefreshNode graph)
  let _ ← graph.document.nodes.foldlM (checkBoundary graph.id) []
  return ()

end Graphs

section Calls

def calledIds (graph : GraphDefinition) : List String :=
  (graph.document.nodes.filter isCall).map GraphNode.operatorId

/-- The call relation: each Graph id to the distinct sibling ids it calls. -/
def callees (graphs : List GraphDefinition) : Dict String (List String) :=
  let ids := graphs.map GraphDefinition.id
  ids.dedup.map (fun id => (id, sortedTexts
    (((graphs.filter (fun graph => graph.id = id)).flatMap calledIds).filter (· ∈ ids)).dedup))

/-- Why the walk over the call relation ends early. -/
inductive CallWalkStop
  | cycle (path : List String)
  | outOfFuel
  deriving DecidableEq

/-- The Graphs done once this one is, in the order they were finished. -/
def visit (calls : String → List String) : ℕ → String → List String → List String →
    Except CallWalkStop (List String)
  | 0, _, _, _ => .error .outOfFuel
  | fuel + 1, graphId, path, done => do
    let onPath := path ++ [graphId]
    let done ← (calls graphId).foldlM (fun done callee =>
      if callee ∈ onPath then .error (.cycle (onPath.drop (onPath.idxOf callee) ++ [callee]))
      else if callee ∈ done then .ok done
      else visit calls fuel callee onPath done) done
    return done ++ [graphId]

/-- Stops with a cycle when there is one; otherwise every Graph is done. The
path never repeats a Graph, so it gets no deeper than there are Graphs. -/
def findCallCycle (callees : Dict String (List String)) : Except CallWalkStop (List String) :=
  (sortedTexts callees.keys).foldlM (fun done graphId =>
    if graphId ∈ done then .ok done
    else visit (fun id => (callees.get? id).getD []) (callees.length + 1) graphId [] done) []

end Calls

section Projects

/-- The errors of `_check_project`, by what they name. -/
inductive ProjectError
  | duplicateId (graph : String)
  | duplicateName (name first second : String)
  | callVersion (graph node : String)
  | missingCallee (graph node callee : String)
  | callCycle (stop : CallWalkStop)
  deriving DecidableEq

variable (casefold : String → String)

structure Taken where
  ids : List String
  names : Dict String String

def checkNames (taken : Taken) (graph : GraphDefinition) : Except ProjectError Taken := do
  let folded := casefold graph.name
  require (graph.id ∉ taken.ids) (.duplicateId graph.id)
  require (taken.names.get? folded = none)
    (.duplicateName graph.name ((taken.names.get? folded).getD "") graph.id)
  return ⟨graph.id :: taken.ids, taken.names.set folded graph.id⟩

def checkCall (ids : List String) (graph : GraphDefinition) (node : GraphNode) :
    Except ProjectError Unit :=
  if isCall node then do
    require (node.operatorVersion = callNodeOperatorVersion) (.callVersion graph.id node.id)
    require (node.operatorId ∈ ids) (.missingCallee graph.id node.id node.operatorId)
  else .ok ()

def checkProject (graphs : List GraphDefinition) : Except ProjectError Unit := do
  let _ ← graphs.foldlM (checkNames casefold) ⟨[], []⟩
  let _ ← graphs.mapM (fun graph =>
    graph.document.nodes.mapM (checkCall (graphs.map GraphDefinition.id) graph))
  let _ ← (findCallCycle (callees graphs)).mapError ProjectError.callCycle
  return ()

def ProjectDocument.getGraph (project : ProjectDocument) (graphId : String) :
    Option GraphDefinition :=
  project.graphs.find? (fun graph => graph.id = graphId)

/-- Every validator accepts the document. -/
structure ProjectDocument.Valid (project : ProjectDocument) : Prop where
  structures : ∀ graph ∈ project.graphs, validateStructure graph.document = .ok ()
  graphs : ∀ graph ∈ project.graphs, validateGraph graph = .ok ()
  project : checkProject casefold project.graphs = .ok ()

end Projects

section Acyclic

variable {calls : String → List String} {done : List String}

/-- Graphs are finished once each and after everything they call. -/
structure Finished (calls : String → List String) (known : String → Prop)
    (done : List String) : Prop where
  nodup : done.Nodup
  sourced : Sourced calls done
  known : ∀ id ∈ done, known id

/-- A visit that ends without a cycle finishes the Graph and what it calls,
and nothing on its path. -/
theorem visit_ok {known : String → Prop} (hknown : ∀ id, known id → ∀ c ∈ calls id, known c)
    (fuel : ℕ) {graphId : String} {path done' : List String} (hid : known graphId)
    (hpath : graphId ∉ path) (hfresh : ∀ id ∈ path ++ [graphId], id ∉ done)
    (hdone : Finished calls known done) (h : visit calls fuel graphId path done = .ok done') :
    Finished calls known done' ∧ graphId ∈ done' ∧ (∀ id ∈ done, id ∈ done') ∧
      ∀ id ∈ path, id ∉ done' := by
  induction fuel generalizing graphId path done done' with
  | zero => simp [visit] at h
  | succ fuel ih =>
    simp only [visit] at h
    obtain ⟨inner, hinner, hlast⟩ := bind_ok.mp h
    obtain rfl : inner ++ [graphId] = done' := by simpa [pure, Except.pure] using hlast
    have hfold := foldlM_invariant (fun (read d : List String) =>
      Finished calls known d ∧ (∀ c ∈ read, c ∈ d) ∧ (∀ id ∈ done, id ∈ d) ∧
        ∀ id ∈ path ++ [graphId], id ∉ d) hinner
      ⟨hdone, by simp, fun id hmem => hmem, hfresh⟩ (by
        rintro read callee d d' hcallee ⟨hd, hread, hold, hpathd⟩ hturn
        split_ifs at hturn with honpath hin
        · obtain rfl : d = d' := by simpa using hturn
          exact ⟨hd, List.forall_mem_append.mpr ⟨hread, by simpa using hin⟩, hold, hpathd⟩
        · have hfresh' : ∀ id ∈ (path ++ [graphId]) ++ [callee], id ∉ d :=
            List.forall_mem_append.mpr ⟨hpathd, by simpa using hin⟩
          obtain ⟨hd', hin', hgrow, hpathd'⟩ :=
            ih (hknown graphId hid callee hcallee) honpath hfresh' hd hturn
          exact ⟨hd', List.forall_mem_append.mpr
            ⟨fun c hc => hgrow c (hread c hc), by simpa using hin'⟩,
            fun id hmem => hgrow id (hold id hmem), hpathd'⟩)
    obtain ⟨hd, hread, hold, hpathd⟩ := hfold
    refine ⟨⟨?_, hd.sourced.snoc hread, ?_⟩, by simp, ?_, ?_⟩
    · refine List.nodup_append.mpr ⟨hd.nodup, by simp, ?_⟩
      rintro a ha b hb rfl
      obtain rfl := List.mem_singleton.mp hb
      exact hpathd a (by simp) ha
    · exact List.forall_mem_append.mpr ⟨hd.known, by simpa using hid⟩
    · intro id hmem
      exact List.mem_append_left _ (hold id hmem)
    · intro id hmem hin
      rcases mem_snoc.mp hin with hin | rfl
      · exact hpathd id (List.mem_append_left _ hmem) hin
      · exact hpath hmem

theorem mem_sortedTexts {text : String} {texts : List String} :
    text ∈ sortedTexts texts ↔ text ∈ texts := (List.perm_insertionSort _ texts).mem_iff

/-- Without a cycle every Graph is finished, after the Graphs it calls. -/
theorem findCallCycle_ok {callees : Dict String (List String)} {known : String → Prop}
    (hkeys : ∀ id ∈ callees.keys, known id)
    (hknown : ∀ id, known id → ∀ c ∈ (callees.get? id).getD [], known c)
    (h : findCallCycle callees = .ok done) :
    Finished (fun id => (callees.get? id).getD []) known done ∧ ∀ id ∈ callees.keys, id ∈ done := by
  have hfold := foldlM_invariant (fun (read d : List String) =>
    Finished (fun id => (callees.get? id).getD []) known d ∧ ∀ id ∈ read, id ∈ d) h
    ⟨⟨List.nodup_nil, Sourced.nil, by simp⟩, by simp⟩ (by
      rintro read graphId d d' hmem ⟨hd, hread⟩ hturn
      split_ifs at hturn with hin
      · obtain rfl : d = d' := by simpa using hturn
        exact ⟨hd, List.forall_mem_append.mpr ⟨hread, by simpa using hin⟩⟩
      · obtain ⟨hd', hin', hgrow, -⟩ := visit_ok hknown _ (hkeys _ (mem_sortedTexts.mp hmem))
          (by simp) (by simpa using hin) hd hturn
        exact ⟨hd', List.forall_mem_append.mpr
          ⟨fun c hc => hgrow c (hread c hc), by simpa using hin'⟩⟩)
  exact ⟨hfold.1, fun id hid => hfold.2 id (mem_sortedTexts.mpr hid)⟩

end Acyclic

section Accepted

/-- What the expansion of an accepted document relies on. -/
structure WellFormed (project : ProjectDocument) : Prop where
  ids : (project.graphs.map GraphDefinition.id).Nodup
  anchored : ∀ graph ∈ project.graphs, Anchored graph.document
  calleeKnown : ∀ graph ∈ project.graphs, ∀ node ∈ graph.document.nodes, isCall node →
    node.operatorId ∈ project.graphs.map GraphDefinition.id
  boundaryKind : ∀ graph ∈ project.graphs, ∀ node ∈ graph.document.nodes, isBoundary node →
    node.kind = .builtin
  publicNames : ∀ graph ∈ project.graphs,
    ((graph.document.nodes.filter isBoundary).map interfaceSlot).Nodup
  ranked : ∃ rank : String → ℕ, (∀ graph ∈ project.graphs, rank graph.id < project.graphs.length) ∧
    ∀ graph ∈ project.graphs, ∀ node ∈ graph.document.nodes, isCall node →
      rank node.operatorId < rank graph.id

theorem checkBoundary_ok {graphId : String} {names names' : Dict (Direction × String) String}
    {node : GraphNode} (h : checkBoundary graphId names node = .ok names') :
    (isBoundary node = false ∧ names' = names) ∨
      (isBoundary node = true ∧ node.kind = .builtin ∧ names.get? (interfaceSlot node) = none ∧
        names' = names.set (interfaceSlot node) node.id) := by
  cases hboundary : isBoundary node with
  | false =>
    refine Or.inl ⟨rfl, ?_⟩
    simpa [checkBoundary, hboundary, eq_comm] using h
  | true =>
    simp only [checkBoundary, hboundary, ↓reduceIte] at h
    obtain ⟨_, hkind, h⟩ := bind_ok.mp h
    obtain ⟨_, -, h⟩ := bind_ok.mp h
    obtain ⟨_, -, h⟩ := bind_ok.mp h
    obtain ⟨_, -, h⟩ := bind_ok.mp h
    obtain ⟨_, -, h⟩ := bind_ok.mp h
    obtain ⟨_, -, h⟩ := bind_ok.mp h
    obtain ⟨_, -, h⟩ := bind_ok.mp h
    obtain ⟨_, hfree, h⟩ := bind_ok.mp h
    refine Or.inr ⟨rfl, require_ok.mp hkind, require_ok.mp hfree, ?_⟩
    simpa [pure, Except.pure, eq_comm] using h

variable {graph : GraphDefinition}

/-- Boundary nodes run as builtins and no two share a direction and a name. -/
theorem validateGraph_boundaries (h : validateGraph graph = .ok ()) :
    (∀ node ∈ graph.document.nodes, isBoundary node → node.kind = .builtin) ∧
      ((graph.document.nodes.filter isBoundary).map interfaceSlot).Nodup := by
  unfold validateGraph at h
  obtain ⟨_, -, h⟩ := bind_ok.mp h
  obtain ⟨names, hnames, -⟩ := bind_ok.mp h
  constructor
  · intro node hnode hboundary
    obtain ⟨_, _, hturn⟩ := exists_turn_of_foldlM hnames node hnode
    rcases checkBoundary_ok hturn with ⟨hno, -⟩ | ⟨-, hkind, -⟩
    · simp [hno] at hboundary
    · exact hkind
  · have hfold := foldlM_invariant (fun read (names : Dict (Direction × String) String) =>
      ((read.filter isBoundary).map interfaceSlot).Nodup ∧
        ∀ slot ∈ (read.filter isBoundary).map interfaceSlot, (names.get? slot).isSome) hnames
      (by simp) (by
        rintro read node names names' - ⟨hnodup, hknown⟩ hturn
        rcases checkBoundary_ok hturn with ⟨hno, rfl⟩ | ⟨hyes, -, hfree, rfl⟩
        · rw [List.filter_append, List.filter_cons_of_neg (by simp [hno]), List.filter_nil,
            List.append_nil]
          exact ⟨hnodup, hknown⟩
        · have hfresh : interfaceSlot node ∉ (read.filter isBoundary).map interfaceSlot := by
            intro hmem
            simpa [hfree] using hknown _ hmem
          rw [List.filter_append, List.map_append]
          refine ⟨List.nodup_append.mpr ⟨hnodup, by simp [hyes], ?_⟩, ?_⟩
          · rintro a ha b hb rfl
            obtain rfl : a = interfaceSlot node := by simpa [hyes] using hb
            exact hfresh ha
          · intro slot hslot
            rw [Dict.get?_set]
            split_ifs with heq
            · rfl
            · refine hknown slot ((List.mem_append.mp hslot).resolve_right ?_)
              simpa [hyes] using heq)
    exact hfold.1

variable {casefold : String → String} {graphs : List GraphDefinition}

theorem checkNames_ids {taken : Taken}
    (h : graphs.foldlM (checkNames casefold) ⟨[], []⟩ = .ok taken) :
    (graphs.map GraphDefinition.id).Nodup := by
  have hfold := foldlM_invariant (fun (read : List GraphDefinition) (taken : Taken) =>
    (read.map GraphDefinition.id).Nodup ∧ ∀ id ∈ read.map GraphDefinition.id, id ∈ taken.ids) h
    (by simp) (by
      rintro read graph taken taken' - ⟨hnodup, hids⟩ hturn
      unfold checkNames at hturn
      obtain ⟨_, hfresh, hturn⟩ := bind_ok.mp hturn
      obtain ⟨_, -, hturn⟩ := bind_ok.mp hturn
      have hfresh := require_ok.mp hfresh
      obtain rfl : _ = taken' := by simpa [pure, Except.pure] using hturn
      rw [List.map_append]
      refine ⟨List.nodup_append.mpr ⟨hnodup, by simp, ?_⟩, List.forall_mem_append.mpr ⟨?_, by simp⟩⟩
      · rintro a ha b hb rfl
        obtain rfl : a = graph.id := by simpa using hb
        exact hfresh (hids _ ha)
      · intro id hid
        exact List.mem_cons_of_mem _ (hids id hid))
  exact hfold.1

theorem get?_callees (hgraph : graph ∈ graphs) :
    (callees graphs).get? graph.id = some (sortedTexts
      (((graphs.filter (fun g => g.id = graph.id)).flatMap calledIds).filter
        (· ∈ graphs.map GraphDefinition.id)).dedup) := by
  have hkeys : (callees graphs).keys.Nodup := by
    simpa [callees, Dict.keys, Function.comp_def] using List.nodup_dedup _
  refine Dict.get?_of_mem hkeys ?_
  refine List.mem_map.mpr ⟨graph.id, ?_, rfl⟩
  exact List.mem_dedup.mpr (List.mem_map.mpr ⟨graph, hgraph, rfl⟩)

theorem keys_callees : (callees graphs).keys = (graphs.map GraphDefinition.id).dedup := by
  simp [callees, Dict.keys, Function.comp_def]

/-- Without a call cycle the Graphs have ranks that calls lower. -/
theorem ranked_of_findCallCycle {done : List String}
    (h : findCallCycle (callees graphs) = .ok done) :
    ∃ rank : String → ℕ, (∀ graph ∈ graphs, rank graph.id < graphs.length) ∧
      ∀ graph ∈ graphs, ∀ node ∈ graph.document.nodes, isCall node →
        node.operatorId ∈ graphs.map GraphDefinition.id → rank node.operatorId < rank graph.id := by
  have hknown : ∀ id, id ∈ (callees graphs).keys → ∀ c ∈ ((callees graphs).get? id).getD [],
      c ∈ (callees graphs).keys := by
    intro id _ c hc
    cases hget : (callees graphs).get? id with
    | none => simp [hget] at hc
    | some called =>
    rw [hget, Option.getD_some] at hc
    obtain ⟨id', -, heq⟩ := List.mem_map.mp (Dict.mem_of_get? hget)
    obtain ⟨-, rfl⟩ := Prod.mk.inj heq
    have hmem := (List.mem_filter.mp (List.mem_dedup.mp (mem_sortedTexts.mp hc))).2
    rw [keys_callees]
    exact List.mem_dedup.mpr (by simpa using hmem)
  obtain ⟨hfinished, hall⟩ := findCallCycle_ok (fun _ => id) hknown h
  have hdone : ∀ graph ∈ graphs, graph.id ∈ done := by
    intro graph hgraph
    refine hall graph.id ?_
    rw [keys_callees]
    exact List.mem_dedup.mpr (List.mem_map.mpr ⟨graph, hgraph, rfl⟩)
  have hlength : done.length ≤ graphs.length := by
    have hsub : done ⊆ graphs.map GraphDefinition.id := by
      intro id hid
      have hkey := hfinished.known id hid
      rw [keys_callees] at hkey
      exact List.mem_dedup.mp hkey
    simpa using (hfinished.nodup.subperm hsub).length_le
  refine ⟨done.idxOf, ?_, ?_⟩
  · intro graph hgraph
    exact lt_of_lt_of_le (List.idxOf_lt_length_of_mem (hdone graph hgraph)) hlength
  · intro graph hgraph node hnode hcall hcallee
    refine hfinished.sourced.idxOf_lt hfinished.nodup (hdone graph hgraph) ?_
    rw [get?_callees hgraph]
    refine mem_sortedTexts.mpr (List.mem_dedup.mpr
      (List.mem_filter.mpr ⟨?_, by simpa using hcallee⟩))
    refine List.mem_flatMap.mpr ⟨graph, List.mem_filter.mpr ⟨hgraph, by simp⟩, ?_⟩
    exact List.mem_map.mpr ⟨node, List.mem_filter.mpr ⟨hnode, hcall⟩, rfl⟩

theorem ProjectDocument.Valid.wellFormed {project : ProjectDocument} (h : project.Valid casefold) :
    WellFormed project := by
  have hproject := h.project
  unfold checkProject at hproject
  obtain ⟨taken, hnames, hproject⟩ := bind_ok.mp hproject
  obtain ⟨checked, hcalls, hproject⟩ := bind_ok.mp hproject
  obtain ⟨done, hcycle, -⟩ := bind_ok.mp hproject
  have hids := checkNames_ids hnames
  have hcallee : ∀ graph ∈ project.graphs, ∀ node ∈ graph.document.nodes, isCall node →
      node.operatorId ∈ project.graphs.map GraphDefinition.id := by
    intro graph hgraph node hnode hcall
    obtain ⟨nodes, -, hnodes⟩ := Alignment.exists_right (mapM_ok hcalls) hgraph
    obtain ⟨u, -, hu⟩ := Alignment.exists_right (mapM_ok hnodes) hnode
    simp only [checkCall, hcall, ↓reduceIte] at hu
    obtain ⟨_, -, hu⟩ := bind_ok.mp hu
    exact require_ok.mp hu
  have hdone : findCallCycle (callees project.graphs) = .ok done := by
    cases hfind : findCallCycle (callees project.graphs) with
    | error stop => simp [hfind, Except.mapError] at hcycle
    | ok done' => simpa [hfind, Except.mapError] using hcycle
  obtain ⟨rank, hrank, hlower⟩ := ranked_of_findCallCycle hdone
  refine ⟨hids, fun g hg => validateStructure_anchored (h.structures g hg), hcallee,
    fun g hg => (validateGraph_boundaries (h.graphs g hg)).1,
    fun g hg => (validateGraph_boundaries (h.graphs g hg)).2, rank, hrank, ?_⟩
  intro graph hgraph node hnode hcall
  exact hlower graph hgraph node hnode hcall (hcallee graph hgraph node hnode hcall)

end Accepted

end Grafy.Project
