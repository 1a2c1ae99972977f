import Grafy.CommandValidity

/-!
Two authors who write one datum from the same document. Every compare-and-set
command carries what its author read and is refused when it finds something
else. What it compares is a projection of the datum: the ids of a plug list,
null for a field that is absent, the JSON text of anything else.
-/
namespace Grafy.LostUpdates

open CanonicalJson Commands Dumps GraphDocuments Loops OrderedDict Project

section Data

/-- A datum that commands compare and then write. -/
inductive Datum
  | projectName
  | graphName (graphId : String)
  | generation (graphId nodeId : String)
  | configurationField (graphId nodeId field : String)
  | layout (graphId nodeId : String)
  | inputPlugs (graphId nodeId : String)
  | binding (graphId nodeId typeVariable : String)
  | edge (graphId edgeId : String)
  | origin (graphId originId : String)

def edgeAt (project : ProjectDocument) (graphId edgeId : String) : Option GraphEdge :=
  (project.getGraph graphId).bind (fun graph =>
    graph.document.edges.find? (fun edge => edge.id = edgeId))

def originAt (project : ProjectDocument) (graphId originId : String) : Option GraphOrigin :=
  (project.getGraph graphId).bind (fun graph =>
    graph.document.origins.find? (fun origin => origin.id = originId))

def nameOf (graph : GraphDefinition) : Json := .str graph.name

def layoutOf (node : GraphNode) : Json := dumpOption dumpLayout node.layout

def plugsOf (node : GraphNode) : Json := dumpList dumpPlug node.inputPlugs

def bindingOf (typeVariable : String) (node : GraphNode) : Json :=
  dumpOption dumpBinding (bindingForVariable node typeVariable)

/-- The datum as it is in the document; a field that is absent has no value. -/
def Datum.read (head : Head) : Datum → Option Json
  | .projectName => some (.str head.1)
  | .graphName graphId => (head.2.getGraph graphId).map nameOf
  | .generation graphId nodeId =>
    (head.2.getGraph graphId).map (fun graph => .int (generationOf graph nodeId))
  | .configurationField graphId nodeId field =>
    (nodeAt head.2 graphId nodeId).bind (fun node => node.config.get? field)
  | .layout graphId nodeId => (nodeAt head.2 graphId nodeId).map layoutOf
  | .inputPlugs graphId nodeId => (nodeAt head.2 graphId nodeId).map plugsOf
  | .binding graphId nodeId typeVariable =>
    (nodeAt head.2 graphId nodeId).map (bindingOf typeVariable)
  | .edge graphId edgeId => (edgeAt head.2 graphId edgeId).map dumpEdge
  | .origin graphId originId => (originAt head.2 graphId originId).map dumpOrigin

/-- The datum is not the same JSON value any more. -/
def Changes (datum : Datum) (head next : Head) : Prop :=
  (datum.read head).map sortKeys ≠ (datum.read next).map sortKeys

/-- The compare-and-set commands and what each of them writes. Exchanging the
configuration as a whole writes every field of it. -/
inductive Writes : ProjectCommand → Datum → Prop
  | renameProject (name expectedName : String) :
    Writes (.renameProject name expectedName) .projectName
  | renameGraph (graphId name expectedName : String) :
    Writes (.renameGraph graphId name expectedName) (.graphName graphId)
  | refreshNode (graphId nodeId : String) (expectedGeneration : ℕ) :
    Writes (.refreshNode graphId nodeId expectedGeneration) (.generation graphId nodeId)
  | configuration (graphId nodeId field : String) (value expectedValue : Json) :
    Writes (.inGraph graphId (.updateNodeConfiguration nodeId field value expectedValue))
      (.configurationField graphId nodeId field)
  | layout (graphId nodeId : String) (layout expectedLayout : Option GraphNodeLayout) :
    Writes (.inGraph graphId (.updateNodeLayout nodeId layout expectedLayout))
      (.layout graphId nodeId)
  | inputPlugs (graphId nodeId : String) (plugs : List GraphInputPlug) (expected : List String) :
    Writes (.inGraph graphId (.setNodeInputPlugs nodeId plugs expected))
      (.inputPlugs graphId nodeId)
  | bothField (graphId nodeId field : String) (config expectedConfig : Dict String Json)
      (plugs : List GraphInputPlug) (expected : List String) :
    Writes (.inGraph graphId (.updateNodeConfigurationAndInputPlugs nodeId config plugs
      expectedConfig expected)) (.configurationField graphId nodeId field)
  | bothPlugs (graphId nodeId : String) (config expectedConfig : Dict String Json)
      (plugs : List GraphInputPlug) (expected : List String) :
    Writes (.inGraph graphId (.updateNodeConfigurationAndInputPlugs nodeId config plugs
      expectedConfig expected)) (.inputPlugs graphId nodeId)
  | setBinding (graphId nodeId typeVariable : String) (binding : GraphArtifactTypeBinding)
      (expected : Option GraphArtifactTypeBinding) (htarget : binding.typeVariable = typeVariable) :
    Writes (.inGraph graphId (.setNodeArtifactTypeBinding nodeId binding expected))
      (.binding graphId nodeId typeVariable)
  | clearBinding (graphId nodeId typeVariable : String) (expected : GraphArtifactTypeBinding) :
    Writes (.inGraph graphId (.clearNodeArtifactTypeBinding nodeId typeVariable expected))
      (.binding graphId nodeId typeVariable)
  | edge (graphId edgeId : String) (edge expectedEdge : GraphEdge) (htarget : edge.id = edgeId) :
    Writes (.inGraph graphId (.updateEdge edge expectedEdge)) (.edge graphId edgeId)
  | origin (graphId originId : String) (origin expectedOrigin : GraphOrigin)
      (htarget : origin.id = originId) :
    Writes (.inGraph graphId (.updateOrigin origin expectedOrigin)) (.origin graphId originId)

end Data

section Comparisons

def idsOf (plugs : List GraphInputPlug) : Json := .arr ((plugIds plugs).map .str)

/-- What a command finds when it compares; nothing when its target is missing. -/
def compared (head : Head) : ProjectCommand → Option Json
  | .renameProject .. => some (.str head.1)
  | .renameGraph graphId .. => (head.2.getGraph graphId).map nameOf
  | .refreshNode graphId nodeId _ =>
    (head.2.getGraph graphId).bind (fun graph =>
      (graph.document.nodes.find? (fun node => node.id = nodeId)).bind (fun node =>
        if isCall node then none else some (.int (generationOf graph nodeId))))
  | .inGraph graphId command =>
    match command with
    | .updateNodeConfiguration nodeId field _ _ =>
      (nodeAt head.2 graphId nodeId).map (fun node => (node.config.get? field).getD .null)
    | .updateNodeLayout nodeId .. => (nodeAt head.2 graphId nodeId).map layoutOf
    | .setNodeInputPlugs nodeId .. =>
      (nodeAt head.2 graphId nodeId).map (fun node => idsOf node.inputPlugs)
    | .updateNodeConfigurationAndInputPlugs nodeId .. =>
      (nodeAt head.2 graphId nodeId).map
        (fun node => .arr [.obj node.config, idsOf node.inputPlugs])
    | .setNodeArtifactTypeBinding nodeId binding _ =>
      (nodeAt head.2 graphId nodeId).map (bindingOf binding.typeVariable)
    | .clearNodeArtifactTypeBinding nodeId typeVariable _ =>
      (nodeAt head.2 graphId nodeId).map (bindingOf typeVariable)
    | .updateEdge edge _ => (edgeAt head.2 graphId edge.id).map dumpEdge
    | .updateOrigin origin _ => (originAt head.2 graphId origin.id).map dumpOrigin
    | _ => none
  | _ => none

/-- What a command says its author read. -/
def expected : ProjectCommand → Json
  | .renameProject _ expectedName => .str expectedName
  | .renameGraph _ _ expectedName => .str expectedName
  | .refreshNode _ _ expectedGeneration => .int expectedGeneration
  | .inGraph _ command =>
    match command with
    | .updateNodeConfiguration _ _ _ expectedValue => expectedValue
    | .updateNodeLayout _ _ expectedLayout => dumpOption dumpLayout expectedLayout
    | .setNodeInputPlugs _ _ expectedPlugIds => .arr (expectedPlugIds.map .str)
    | .updateNodeConfigurationAndInputPlugs _ _ _ expectedConfig expectedPlugIds =>
      .arr [.obj expectedConfig, .arr (expectedPlugIds.map .str)]
    | .setNodeArtifactTypeBinding _ _ expectedBinding => dumpOption dumpBinding expectedBinding
    | .clearNodeArtifactTypeBinding _ _ expectedBinding => dumpBinding expectedBinding
    | .updateEdge _ expectedEdge => dumpEdge expectedEdge
    | .updateOrigin _ expectedOrigin => dumpOrigin expectedOrigin
    | _ => .null
  | _ => .null

/-- The command's expectation is what its author read from the document. -/
def BuiltAgainst (head : Head) (command : ProjectCommand) : Prop :=
  ∃ value, compared head command = some value ∧ Same value (expected command)

theorem jsonEqual_iff {left right : Json} : jsonEqual left right = true ↔ Same left right := by
  rw [jsonEqual, decide_eq_true_iff]
  constructor
  · exact same_of_canonical_eq
  · intro h
    rw [canonical, canonical, h]

theorem same_ids {ids ids' : List String} :
    Same (.arr (ids.map .str)) (.arr (ids'.map .str)) ↔ ids = ids' := by
  rw [same_arr, List.forall₂_map_left_iff, List.forall₂_map_right_iff]
  simp only [same_str, List.forall₂_eq_eq_eq]

theorem same_pair {a b a' b' : Json} :
    Same (.arr [a, b]) (.arr [a', b']) ↔ Same a a' ∧ Same b b' := by
  rw [same_arr]
  simp

end Comparisons

section Conflicts

variable {A B : Type} {x : Applied A} {f : A → Applied B} {p : Prop} {a : A} {conflict : Conflict}

/-- Rejected because the datum was found changed. -/
def Conflicting (result : Applied A) : Prop := ∃ conflict, result = .error (.fieldConflict conflict)

theorem not_conflicting_ok (a : A) : ¬ Conflicting (.ok a : Applied A) := by
  rintro ⟨_, h⟩
  cases h

theorem conflicting_bind (hx : x = .ok a) : Conflicting (x >>= f) ↔ Conflicting (f a) := by
  subst hx
  exact Iff.rfl

theorem conflicting_bind_left (hf : ∀ a, ¬ Conflicting (f a)) :
    Conflicting (x >>= f) ↔ Conflicting x := by
  constructor
  · rintro ⟨conflict, h⟩
    rcases bind_error.mp h with hx | ⟨a, -, ha⟩
    · exact ⟨conflict, hx⟩
    · exact absurd ⟨conflict, ha⟩ (hf a)
  · rintro ⟨conflict, rfl⟩
    exact ⟨conflict, rfl⟩

theorem conflicting_require [Decidable p] {f : Unit → Applied B} :
    Conflicting (require p (.fieldConflict conflict) >>= f) ↔ ¬ p ∨ p ∧ Conflicting (f ()) := by
  by_cases hp : p
  · simp only [require, hp, if_true, not_true, true_and, false_or]
    exact Iff.rfl
  · simp only [hp, not_false_eq_true, true_or, iff_true]
    exact ⟨conflict, by simp [require, bind, Except.bind]⟩

/-- Where nothing later conflicts, the comparison decides. -/
theorem conflicting_require_iff [Decidable p] {f : Unit → Applied B} (hf : ¬ Conflicting (f ())) :
    Conflicting (require p (.fieldConflict conflict) >>= f) ↔ ¬ p := by
  rw [conflicting_require]
  simp [hf]

theorem not_conflicting_require [Decidable p] {rejection : Rejection}
    (h : ∀ conflict, rejection ≠ .fieldConflict conflict) :
    ¬ Conflicting (require p rejection) := by
  rintro ⟨conflict, hconflict⟩
  obtain ⟨-, rfl⟩ := require_error.mp hconflict
  exact h conflict rfl

theorem not_conflicting_checked {E : Type} {check : Except E Unit} {wrap : E → Rejection}
    (h : ∀ error conflict, wrap error ≠ .fieldConflict conflict) :
    ¬ Conflicting (check.mapError wrap >>= fun _ => pure a) := by
  rintro ⟨conflict, hconflict⟩
  cases check with
  | error error => exact h error conflict (Except.error.inj hconflict)
  | ok u => cases hconflict

theorem not_conflicting_buildDocument (document : GraphDocument) :
    ¬ Conflicting (buildDocument document) := not_conflicting_checked (by simp)

theorem not_conflicting_buildGraph (graph : GraphDefinition) : ¬ Conflicting (buildGraph graph) :=
  not_conflicting_checked (by simp)

theorem not_conflicting_mapM (hf : ∀ a, ¬ Conflicting (f a)) (l : List A) :
    ¬ Conflicting (l.mapM f) := by
  induction l with
  | nil => exact not_conflicting_ok []
  | cons a rest ih =>
    rw [List.mapM_cons, conflicting_bind_left]
    · exact hf a
    · intro b
      rw [conflicting_bind_left]
      · exact ih
      · exact fun r => not_conflicting_ok (b :: r)

theorem not_conflicting_changeGraph (casefold : String → String) (project : ProjectDocument)
    (graphId : String) (change : GraphDefinition → GraphDefinition) :
    ¬ Conflicting (changeGraph casefold project graphId change) := by
  unfold changeGraph
  rw [conflicting_bind_left]
  · apply not_conflicting_mapM
    intro graph
    split_ifs
    · exact not_conflicting_buildGraph _
    · exact not_conflicting_ok graph
  · exact fun graphs => not_conflicting_checked (by simp)

theorem not_conflicting_returned (hx : ¬ Conflicting x) (f : A → B) :
    ¬ Conflicting (x >>= fun a => pure (f a)) := by
  rw [conflicting_bind_left]
  · exact hx
  · exact fun a => not_conflicting_ok (f a)

end Conflicts

variable {casefold : String → String} {destination : String → Option String} {head : Head}
  {graphId nodeId : String} {node : GraphNode} {value : Json} {command : GraphCommand}
  {config expectedConfig : Dict String Json} {plugs : List GraphInputPlug}

section Detection

theorem nodeAt_some {project : ProjectDocument} (h : nodeAt project graphId nodeId = some node) :
    ∃ graph, project.getGraph graphId = some graph ∧
      nodeOrRaise graph.document nodeId = .ok node := by
  obtain ⟨graph, hgraph, hnode⟩ := Option.bind_eq_some_iff.mp h
  exact ⟨graph, hgraph, nodeOrRaise_ok.mpr hnode⟩

/-- A command in a Graph conflicts when its change of the document does. -/
theorem conflicting_inGraph {graph : GraphDefinition}
    (hgraph : head.2.getGraph graphId = some graph) :
    Conflicting
      (applyProjectCommand casefold destination head.1 head.2 (.inGraph graphId command)) ↔
      Conflicting (applyGraphCommand destination graph.document command) := by
  rw [applyProjectCommand, conflicting_bind (graphOrRaise_ok.mpr hgraph), conflicting_bind_left]
  intro document
  apply not_conflicting_returned
  apply not_conflicting_changeGraph

theorem conflicting_compare {graph : GraphDocument} {p : GraphNode → Prop} [DecidablePred p]
    {conflict : Conflict} {f : GraphNode → Applied GraphDocument}
    (hnode : nodeOrRaise graph nodeId = .ok node) (hf : ¬ Conflicting (f node)) :
    Conflicting (do
      let node ← nodeOrRaise graph nodeId
      require (p node) (.fieldConflict conflict)
      f node) ↔ ¬ p node := by
  rw [conflicting_bind hnode, conflicting_require_iff hf]

theorem conflicting_both {expectedIds : List String}
    (hvalue : compared head (.inGraph graphId (.updateNodeConfigurationAndInputPlugs nodeId config
      plugs expectedConfig expectedIds)) = some value) :
    Conflicting (applyProjectCommand casefold destination head.1 head.2 (.inGraph graphId
        (.updateNodeConfigurationAndInputPlugs nodeId config plugs expectedConfig expectedIds))) ↔
      ¬ Same value (.arr [.obj expectedConfig, .arr (expectedIds.map .str)]) := by
  obtain ⟨node, hnode, rfl⟩ := Option.map_eq_some_iff.mp hvalue
  obtain ⟨graph, hgraph, hnode⟩ := nodeAt_some hnode
  rw [conflicting_inGraph hgraph, same_pair, idsOf, same_ids]
  unfold applyGraphCommand checkPlugIds
  rw [conflicting_bind hnode, conflicting_require,
    conflicting_require_iff (not_conflicting_buildDocument _), jsonEqual_iff]
  tauto

/-- A command whose target is there conflicts exactly when it finds something
else than it expects. -/
theorem conflicting_iff {command : ProjectCommand} {datum : Datum} (hwrites : Writes command datum)
    (hvalue : compared head command = some value) :
    Conflicting (applyProjectCommand casefold destination head.1 head.2 command) ↔
      ¬ Same value (expected command) := by
  cases hwrites with
  | renameProject name expectedName =>
    cases hvalue
    rw [applyProjectCommand, conflicting_require_iff, expected, same_str]
    exact not_conflicting_ok (name, head.2)
  | renameGraph graphId name expectedName =>
    obtain ⟨graph, hgraph, rfl⟩ := Option.map_eq_some_iff.mp hvalue
    rw [applyProjectCommand, conflicting_bind (graphOrRaise_ok.mpr hgraph), conflicting_require_iff,
      expected, nameOf, same_str]
    rw [conflicting_bind_left]
    · exact not_conflicting_returned (not_conflicting_require (by simp)) _
    · intro checked
      apply not_conflicting_returned
      apply not_conflicting_changeGraph
  | refreshNode graphId nodeId expectedGeneration =>
    obtain ⟨graph, hgraph, hvalue⟩ := Option.bind_eq_some_iff.mp hvalue
    obtain ⟨node, hnode, hvalue⟩ := Option.bind_eq_some_iff.mp hvalue
    split_ifs at hvalue with hcall
    cases hvalue
    rw [applyProjectCommand, conflicting_bind (graphOrRaise_ok.mpr hgraph),
      conflicting_bind (nodeOrRaise_ok.mpr hnode), conflicting_bind
        (require_ok (u := ()).mpr hcall),
      conflicting_require_iff, expected, same_int]
    · simp
    · apply not_conflicting_returned
      apply not_conflicting_changeGraph
  | configuration graphId nodeId field written expectedValue
  | layout graphId nodeId layout expectedLayout
  | setBinding graphId nodeId typeVariable binding expectedBinding htarget
  | clearBinding graphId nodeId typeVariable expectedBinding =>
    obtain ⟨node, hnode, rfl⟩ := Option.map_eq_some_iff.mp hvalue
    obtain ⟨graph, hgraph, hnode⟩ := nodeAt_some hnode
    rw [conflicting_inGraph hgraph, applyGraphCommand,
      conflicting_compare hnode (not_conflicting_buildDocument _), jsonEqual_iff]
    exact Iff.rfl
  | inputPlugs graphId nodeId plugs expectedIds =>
    obtain ⟨node, hnode, rfl⟩ := Option.map_eq_some_iff.mp hvalue
    obtain ⟨graph, hgraph, hnode⟩ := nodeAt_some hnode
    rw [conflicting_inGraph hgraph]
    unfold applyGraphCommand checkPlugIds
    rw [conflicting_compare hnode (not_conflicting_buildDocument _), expected, idsOf, same_ids]
  | bothField graphId nodeId field config expectedConfig plugs expectedIds =>
    exact conflicting_both hvalue
  | bothPlugs graphId nodeId config expectedConfig plugs expectedIds =>
    exact conflicting_both hvalue
  | edge graphId edgeId edge expectedEdge htarget =>
    obtain ⟨held, hheld, rfl⟩ := Option.map_eq_some_iff.mp hvalue
    obtain ⟨graph, hgraph, hheld⟩ := Option.bind_eq_some_iff.mp hheld
    rw [conflicting_inGraph hgraph, applyGraphCommand, conflicting_bind (edgeOrRaise_ok.mpr hheld),
      conflicting_require_iff, jsonEqual_iff]
    · exact Iff.rfl
    · rw [conflicting_bind_left]
      · exact not_conflicting_require (by simp)
      · intro _
        apply not_conflicting_buildDocument
  | origin graphId originId origin expectedOrigin htarget =>
    obtain ⟨held, hheld, rfl⟩ := Option.map_eq_some_iff.mp hvalue
    obtain ⟨graph, hgraph, hheld⟩ := Option.bind_eq_some_iff.mp hheld
    rw [conflicting_inGraph hgraph, applyGraphCommand,
      conflicting_bind (originOrRaise_ok.mpr hheld),
      conflicting_require_iff, jsonEqual_iff]
    · exact Iff.rfl
    · rw [conflicting_bind_left]
      · exact not_conflicting_require (by simp)
      · intro _
        apply not_conflicting_buildDocument

end Detection

section Effects

variable {next : Head} {document : GraphDocument}

theorem find_editNode (hnode : document.nodes.find? (fun held => held.id = nodeId) = some node)
    (change : GraphNode → GraphNode) (hchange : ∀ held, (change held).id = held.id) :
    (editNode document nodeId change).find? (fun held => held.id = nodeId) =
      some (change node) := by
  rw [editNode, find_map_same_id GraphNode.id change nodeId document.nodes, hnode]
  · rfl
  · exact fun held hheld => (hchange held).trans hheld

theorem find_edited {result : GraphDocument} (hedits : editsNode command = some nodeId)
    (h : applyGraphCommand destination document command = .ok result) :
    ∃ node, document.nodes.find? (fun held => held.id = nodeId) = some node ∧
      result.nodes.find? (fun held => held.id = nodeId) = some (edited command node) := by
  cases command with
  | updateNodeConfiguration id field value expectedValue
  | updateNodeLayout id layout expectedLayout | setNodeInputPlugs id plugs expectedIds
  | setNodeArtifactTypeBinding id binding expectedBinding
  | clearNodeArtifactTypeBinding id typeVariable expectedBinding =>
    cases hedits
    obtain ⟨node, hnode, h⟩ := bind_ok.mp h
    obtain ⟨_, -, h⟩ := bind_ok.mp h
    obtain ⟨-, rfl⟩ := buildDocument_ok.mp h
    exact ⟨node, nodeOrRaise_ok.mp hnode, find_editNode (nodeOrRaise_ok.mp hnode) _ (fun _ => rfl)⟩
  | updateNodeConfigurationAndInputPlugs id config plugs expectedConfig expectedIds =>
    cases hedits
    obtain ⟨node, hnode, h⟩ := bind_ok.mp h
    obtain ⟨_, -, h⟩ := bind_ok.mp h
    obtain ⟨_, -, h⟩ := bind_ok.mp h
    obtain ⟨-, rfl⟩ := buildDocument_ok.mp h
    exact ⟨node, nodeOrRaise_ok.mp hnode, find_editNode (nodeOrRaise_ok.mp hnode) _ (fun _ => rfl)⟩
  | _ => simp [editsNode] at hedits

theorem nodeAt_edited (hedits : editsNode command = some nodeId)
    (h : applyProjectCommand casefold destination head.1 head.2 (.inGraph graphId command) = .ok
      next) :
    ∃ node, nodeAt head.2 graphId nodeId = some node ∧
      nodeAt next.2 graphId nodeId = some (edited command node) := by
  obtain ⟨graph, document, hgraph, hdocument, hnext⟩ := inGraph_ok h
  obtain ⟨node, hnode, hedited⟩ := find_edited hedits hdocument
  refine ⟨node, ?_, ?_⟩
  · simp [nodeAt, hgraph, hnode]
  · simp only [nodeAt, hnext, Option.bind_some]
    exact hedited

theorem edgeAt_updated {edge expectedEdge : GraphEdge}
    (h : applyProjectCommand casefold destination head.1 head.2 (.inGraph graphId (.updateEdge edge
      expectedEdge)) = .ok next) :
    edgeAt next.2 graphId edge.id = some edge := by
  obtain ⟨graph, document, hgraph, hdocument, hnext⟩ := inGraph_ok h
  obtain ⟨held, hheld, hdocument⟩ := bind_ok.mp hdocument
  obtain ⟨_, -, hdocument⟩ := bind_ok.mp hdocument
  obtain ⟨_, -, hdocument⟩ := bind_ok.mp hdocument
  obtain ⟨-, rfl⟩ := buildDocument_ok.mp hdocument
  have hfind := find_map_same_id GraphEdge.id (fun _ => edge) edge.id graph.document.edges
    (fun _ _ => rfl)
  simp only [edgeAt, hnext, Option.bind_some]
  exact hfind.trans (by rw [edgeOrRaise_ok.mp hheld]; rfl)

theorem originAt_updated {origin expectedOrigin : GraphOrigin}
    (h : applyProjectCommand casefold destination head.1 head.2 (.inGraph graphId (.updateOrigin
      origin expectedOrigin)) = .ok next) :
    originAt next.2 graphId origin.id = some origin := by
  obtain ⟨graph, document, hgraph, hdocument, hnext⟩ := inGraph_ok h
  obtain ⟨held, hheld, hdocument⟩ := bind_ok.mp hdocument
  obtain ⟨_, -, hdocument⟩ := bind_ok.mp hdocument
  obtain ⟨_, -, hdocument⟩ := bind_ok.mp hdocument
  obtain ⟨-, rfl⟩ := buildDocument_ok.mp hdocument
  have hfind := find_map_same_id GraphOrigin.id (fun _ => origin) origin.id graph.document.origins
    (fun _ _ => rfl)
  simp only [originAt, hnext, Option.bind_some]
  exact hfind.trans (by rw [originOrRaise_ok.mp hheld]; rfl)

end Effects

section Members

theorem eq_null_of_same (h : Same .null value) : value = .null := by
  cases value with
  | null => rfl
  | _ => simp [Same, sortKeys] at h

/-- Absent or null: a field compared alone does not tell the two apart. -/
def Blank (value : Option Json) : Prop := value = none ∨ value = some .null

theorem same_getD_iff {old new : Option Json} (hchanges : old.map sortKeys ≠ new.map sortKeys) :
    Same (new.getD .null) (old.getD .null) ↔ Blank old ∧ Blank new := by
  constructor
  · intro h
    cases old with
    | none =>
      cases new with
      | none => exact absurd rfl hchanges
      | some value => exact ⟨Or.inl rfl, Or.inr (congrArg some (eq_null_of_same h.symm))⟩
    | some value =>
      cases new with
      | none => exact ⟨Or.inr (congrArg some (eq_null_of_same h)), Or.inl rfl⟩
      | some value' => exact absurd (congrArg some h.symm) hchanges
  · rintro ⟨hold, hnew⟩
    rcases hold with rfl | rfl <;> rcases hnew with rfl | rfl <;> rfl

end Members

section Overwriting

variable {casefold : String → String} {destination : String → Option String} {head next : Head}
  {datum : Datum} {graphId nodeId : String} {first : GraphCommand} {plugs : List GraphInputPlug}
  {ids : List String}

/-- The command exchanges configuration and plugs at once. -/
def exchangesBoth : ProjectCommand → Bool
  | .inGraph _ (.updateNodeConfigurationAndInputPlugs ..) => true
  | _ => false

def fieldWritten (field : String) : ProjectCommand → Option Json
  | .inGraph _ (.updateNodeConfiguration _ _ value _) => some value
  | .inGraph _ (.updateNodeConfigurationAndInputPlugs _ config ..) => config.get? field
  | _ => none

def plugsWritten : ProjectCommand → List GraphInputPlug
  | .inGraph _ (.setNodeInputPlugs _ plugs _) => plugs
  | .inGraph _ (.updateNodeConfigurationAndInputPlugs _ _ plugs _ _) => plugs
  | _ => []

def configWritten : ProjectCommand → Option (Dict String Json)
  | .inGraph _ (.updateNodeConfigurationAndInputPlugs _ config ..) => some config
  | _ => none

/-- The first command's change of the datum shows in what the second compares.
A field compared alone must not move between absent and null. A plug list must
get other ids, unless both commands exchange the configuration with it and the
first one changes that. -/
def Shows (head : Head) (first second : ProjectCommand) : Datum → Prop
  | .configurationField graphId nodeId field => exchangesBoth second ∨
      ¬ (Blank (Datum.read head (.configurationField graphId nodeId field)) ∧
        Blank (fieldWritten field first))
  | .inputPlugs graphId nodeId => ∀ node ∈ nodeAt head.2 graphId nodeId,
      plugIds (plugsWritten first) ≠ plugIds node.inputPlugs ∨
        exchangesBoth second ∧ ∃ config ∈ configWritten first, ¬ Same (.obj config)
          (.obj node.config)
  | _ => True

section

variable {command : ProjectCommand} {new old : Json} (hwrites : Writes command datum)
  (hbuilt : BuiltAgainst head command) (hold : compared head command = some old)
  (hnew : compared next command = some new)
include hwrites hbuilt hold hnew

theorem conflicting_iff_ne :
    Conflicting (applyProjectCommand casefold destination next.1 next.2 command) ↔
      ¬ Same new old := by
  obtain ⟨value, hvalue, hsame⟩ := hbuilt
  obtain rfl : old = value := Option.some.inj (hold.symm.trans hvalue)
  rw [conflicting_iff hwrites hnew]
  exact not_congr ⟨fun h => h.trans hsame.symm, fun h => h.trans hsame⟩

/-- Where a command compares the datum itself, no change escapes it. -/
theorem conflicting_of_changes (hreadOld : datum.read head = some old)
    (hreadNew : datum.read next = some new) (hchanges : Changes datum head next) :
    Conflicting (applyProjectCommand casefold destination next.1 next.2 command) := by
  rw [conflicting_iff_ne hwrites hbuilt hold hnew]
  intro hsame
  apply hchanges
  rw [hreadOld, hreadNew]
  exact congrArg some hsame.symm

end

/-- What is compared is a projection of the node, the datum another one; they
agree unless the datum is a field or a plug list. -/
theorem conflicting_of_node {second : ProjectCommand} {project : GraphNode → Json}
    (hsecond : Writes second datum) (hbuilt : BuiltAgainst head second)
    (hedits : editsNode first = some nodeId)
    (haccepted : applyProjectCommand casefold destination head.1 head.2 (.inGraph graphId first) =
      .ok next)
    (hcompared : ∀ head : Head, compared head second = (nodeAt head.2 graphId nodeId).map project)
    (hread : ∀ head : Head, datum.read head = (nodeAt head.2 graphId nodeId).map project)
    (hchanges : Changes datum head next) :
    Conflicting (applyProjectCommand casefold destination next.1 next.2 second) := by
  obtain ⟨node, hnode, hedited⟩ := nodeAt_edited hedits haccepted
  have hold : (nodeAt head.2 graphId nodeId).map project = some (project node) := by rw [hnode]; rfl
  have hnew : (nodeAt next.2 graphId nodeId).map project = some (project (edited first node)) := by
    rw [hedited]; rfl
  exact conflicting_of_changes hsecond hbuilt ((hcompared head).trans hold)
    ((hcompared next).trans hnew) ((hread head).trans hold) ((hread next).trans hnew) hchanges

theorem conflicting_rename {name name' expectedName expectedName' : String}
    (hbuilt : BuiltAgainst head (.renameGraph graphId name' expectedName'))
    (haccepted : applyProjectCommand casefold destination head.1 head.2 (.renameGraph graphId name
      expectedName) = .ok next) (hchanges : Changes (.graphName graphId) head next) :
    Conflicting (applyProjectCommand casefold destination next.1 next.2
      (.renameGraph graphId name' expectedName')) := by
  cases applyProjectCommand_step haccepted with
  | @renameGraph _ _ checked graph hgraph =>
    have hnext := getGraph_changed hgraph (fun held => { held with name := checked }) (fun _ => rfl)
    have hold : (head.2.getGraph graphId).map nameOf = some (nameOf graph) := by rw [hgraph]; rfl
    have hnew := congrArg (Option.map nameOf) hnext
    exact conflicting_of_changes (.renameGraph ..) hbuilt hold hnew hold hnew hchanges

theorem conflicting_refresh {expectedGeneration expectedGeneration' : ℕ}
    (hbuilt : BuiltAgainst head (.refreshNode graphId nodeId expectedGeneration'))
    (haccepted : applyProjectCommand casefold destination head.1 head.2 (.refreshNode graphId nodeId
      expectedGeneration) = .ok next) (hchanges : Changes (.generation graphId nodeId) head next) :
    Conflicting (applyProjectCommand casefold destination next.1 next.2
      (.refreshNode graphId nodeId expectedGeneration')) := by
  cases applyProjectCommand_step haccepted with
  | @refreshNode _ _ graph node hgraph hnode hcall =>
    have hnext := getGraph_changed hgraph (refreshedTo nodeId (generationOf graph nodeId + 1))
      (fun _ => rfl)
    have hnode' : (refreshedTo nodeId (generationOf graph nodeId + 1) graph).document.nodes.find?
        (fun node => node.id = nodeId) = some node := hnode
    refine conflicting_of_changes (.refreshNode ..) hbuilt ?_ ?_
      (congrArg (Option.map _) hgraph) (congrArg (Option.map _) hnext) hchanges
    · simp [compared, hgraph, hnode, hcall]
    · simp [compared, hnext, hnode', hcall]

section

variable (hedits : editsNode first = some nodeId)
  (haccepted : applyProjectCommand casefold destination head.1 head.2 (.inGraph graphId first) =
    .ok next)
include hedits haccepted

variable {field : String}

/-- A field that changes makes the configuration another JSON value. -/
theorem conflicting_both_field
    (hbuilt : BuiltAgainst head (.inGraph graphId (.updateNodeConfigurationAndInputPlugs nodeId
      config plugs expectedConfig ids)))
    (hchanges : Changes (.configurationField graphId nodeId field) head next) :
    Conflicting (applyProjectCommand casefold destination next.1 next.2 (.inGraph graphId
      (.updateNodeConfigurationAndInputPlugs nodeId config plugs expectedConfig ids))) := by
  obtain ⟨node, hnode, hedited⟩ := nodeAt_edited hedits haccepted
  rw [conflicting_iff_ne (.bothField graphId nodeId field config expectedConfig plugs ids) hbuilt
    (congrArg (Option.map _) hnode) (congrArg (Option.map _) hedited), same_pair]
  rintro ⟨hconfig, -⟩
  apply hchanges
  simp only [Datum.read, hnode, hedited, Option.bind_some]
  exact (same_obj_get? hconfig field).symm

theorem conflicting_field_iff {expectedValue : Json}
    (hbuilt : BuiltAgainst head (.inGraph graphId (.updateNodeConfiguration nodeId field value
      expectedValue)))
    (hwritten : ∀ node, (edited first node).config.get? field = fieldWritten field (.inGraph graphId
      first)) (hchanges : Changes (.configurationField graphId nodeId field) head next) :
    Conflicting (applyProjectCommand casefold destination next.1 next.2
        (.inGraph graphId (.updateNodeConfiguration nodeId field value expectedValue))) ↔
      ¬ (Blank (Datum.read head (.configurationField graphId nodeId field)) ∧
        Blank (fieldWritten field (.inGraph graphId first))) := by
  obtain ⟨node, hnode, hedited⟩ := nodeAt_edited hedits haccepted
  rw [conflicting_iff_ne (.configuration graphId nodeId field value expectedValue) hbuilt
    (congrArg (Option.map _) hnode) (congrArg (Option.map _) hedited)]
  rw [Changes] at hchanges
  simp only [Datum.read, hnode, hedited, Option.bind_some, hwritten] at hchanges ⊢
  exact not_congr (same_getD_iff hchanges)

theorem conflicting_plugs_iff
    (hbuilt : BuiltAgainst head (.inGraph graphId (.setNodeInputPlugs nodeId plugs ids)))
    (hwritten : ∀ node, (edited first node).inputPlugs = plugsWritten (.inGraph graphId first)) :
    Conflicting (applyProjectCommand casefold destination next.1 next.2
        (.inGraph graphId (.setNodeInputPlugs nodeId plugs ids))) ↔
      Shows head (.inGraph graphId first) (.inGraph graphId (.setNodeInputPlugs nodeId plugs ids))
        (.inputPlugs graphId nodeId) := by
  obtain ⟨node, hnode, hedited⟩ := nodeAt_edited hedits haccepted
  rw [conflicting_iff_ne (.inputPlugs graphId nodeId plugs ids) hbuilt
    (congrArg (Option.map _) hnode) (congrArg (Option.map _) hedited)]
  simp [idsOf, same_ids, hwritten, Shows, hnode, exchangesBoth]

theorem conflicting_both_plugs_iff
    (hbuilt : BuiltAgainst head (.inGraph graphId (.updateNodeConfigurationAndInputPlugs nodeId
      config plugs expectedConfig ids)))
    (hwritten : ∀ node, (edited first node).inputPlugs = plugsWritten (.inGraph graphId first))
    (hconfig : ∀ node, (edited first node).config = (configWritten (.inGraph graphId first)).getD
      node.config) :
    Conflicting (applyProjectCommand casefold destination next.1 next.2 (.inGraph graphId
        (.updateNodeConfigurationAndInputPlugs nodeId config plugs expectedConfig ids))) ↔
      Shows head (.inGraph graphId first) (.inGraph graphId
        (.updateNodeConfigurationAndInputPlugs nodeId config plugs expectedConfig ids))
        (.inputPlugs graphId nodeId) := by
  obtain ⟨node, hnode, hedited⟩ := nodeAt_edited hedits haccepted
  rw [conflicting_iff_ne (.bothPlugs graphId nodeId config expectedConfig plugs ids) hbuilt
    (congrArg (Option.map _) hnode) (congrArg (Option.map _) hedited), same_pair]
  simp only [idsOf, same_ids, hwritten, hconfig]
  have hshows : (∃ config ∈ configWritten (.inGraph graphId first),
      ¬ Same (.obj config) (.obj node.config)) ↔
        ¬ Same (.obj ((configWritten (.inGraph graphId first)).getD node.config))
          (.obj node.config) := by
    cases configWritten (.inGraph graphId first) with
    | none => simp [Same]
    | some written => simp
  simp only [Shows, hnode, Option.mem_some_iff, forall_eq', exchangesBoth, true_and, hshows]
  tauto

end

end Overwriting

section Ports

def joinGraph (plugs : List GraphInputPlug) : GraphDefinition :=
  ⟨"main", "Main", ⟨[], [⟨.builtin, "join", "tables.join", 1, [], default, none, plugs, []⟩], [],
    [], ⟨[], [], [], []⟩⟩, []⟩

def joinProject (plugs : List GraphInputPlug) : ProjectDocument := ⟨[joinGraph plugs]⟩

def setPlugs (plugs : List GraphInputPlug) : ProjectCommand :=
  .inGraph "main" (.setNodeInputPlugs "join" plugs ["p"])

def somePlugs : List (List GraphInputPlug) :=
  [[⟨"p", "left"⟩], [⟨"p", "right"⟩], [⟨"p", "middle"⟩], [⟨"p", "left"⟩, ⟨"q", "left"⟩]]

theorem joinProject_valid (h : plugs ∈ somePlugs) : (joinProject plugs).Valid id := by
  simp only [somePlugs, List.mem_cons, List.not_mem_nil, or_false] at h
  rcases h with rfl | rfl | rfl | rfl
  all_goals
    refine ⟨?_, ?_, by decide⟩
    all_goals
      simp only [joinProject, List.forall_mem_singleton]
      decide

theorem setPlugs_accepted {port : String} (h : plugs ∈ somePlugs) :
    applyProjectCommand id some "Draft" (joinProject [⟨"p", port⟩]) (setPlugs plugs) =
      .ok ("Draft", joinProject plugs) := by
  have hvalid := joinProject_valid h
  have hstructure := hvalid.structures (joinGraph plugs) (List.mem_singleton_self _)
  have hgraph := hvalid.graphs (joinGraph plugs) (List.mem_singleton_self _)
  refine bind_ok.mpr ⟨joinGraph [⟨"p", port⟩], by rfl, bind_ok.mpr
    ⟨(joinGraph plugs).document, ?_, bind_ok.mpr
      ⟨_, changeGraph_ok.mpr ⟨⟨?_, hvalid.project⟩, ?_⟩, rfl⟩⟩⟩
  · refine bind_ok.mpr ⟨_, by rfl, bind_ok.mpr ⟨(), require_ok.mpr rfl, ?_⟩⟩
    exact buildDocument_ok.mpr ⟨hstructure, rfl⟩
  · simp only [joinProject, List.forall_mem_singleton]
    exact fun _ => hgraph
  · rfl

theorem dumpPlug_same {plug plug' : GraphInputPlug} (h : Same (dumpPlug plug) (dumpPlug plug')) :
    plug = plug' := by
  have hid := same_obj_get? h "id"
  have hport := same_obj_get? h "port"
  simp only [Dict.get?_cons, String.reduceEq, if_true, if_false, Option.map_some, sortKeys,
    Option.some.injEq, Json.str.injEq] at hid hport
  cases plug
  cases plug'
  simp_all

theorem joinProject_changes {plugs' : List GraphInputPlug} (h : plugs ≠ plugs') :
    Changes (.inputPlugs "main" "join") ("Draft", joinProject plugs)
      ("Draft", joinProject plugs') := by
  intro hsame
  apply h
  have hread : Same (dumpList dumpPlug plugs) (dumpList dumpPlug plugs') := Option.some.inj hsame
  rw [dumpList, dumpList, same_arr, List.forall₂_map_left_iff, List.forall₂_map_right_iff] at hread
  exact List.forall₂_eq_eq_eq ▸ hread.imp (fun _ _ => dumpPlug_same)

theorem setPlugs_builtAgainst (port : String) (plugs : List GraphInputPlug) :
    BuiltAgainst ("Draft", joinProject [⟨"p", port⟩]) (setPlugs plugs) := ⟨_, rfl, rfl⟩

end Ports

end Grafy.LostUpdates
