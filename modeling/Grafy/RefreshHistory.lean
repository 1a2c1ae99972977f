import Grafy.CommandValidity
import Grafy.ExpansionInstances
import Grafy.FingerprintCongruence

/-!
Refreshing over the whole history of a Project. A refresh raises the node's
generation above the present one. Generations are dropped with the node or the
Graph that has them and go back with a restored checkpoint.
-/
namespace Grafy.RefreshHistory

open Commands DocumentRules Expansion Fingerprints GraphDocuments Instances
  Loops OrderedDict Project Reloading Results

variable {graph : GraphDefinition} {nodeId : String}

section Generations

/-- The generation of a node: zero when it, or its Graph, has none. -/
def generationAt (project : ProjectDocument) (graphId nodeId : String) : ℕ :=
  ((project.getGraph graphId).map (fun graph => generationOf graph nodeId)).getD 0

variable {project : ProjectDocument} {graphId : String}

theorem generationAt_some (h : project.getGraph graphId = some graph) (nodeId : String) :
    generationAt project graphId nodeId = generationOf graph nodeId := by
  simp [generationAt, h]

/-- Every generation is at least what it was. -/
def Grows (project next : ProjectDocument) : Prop :=
  ∀ graphId nodeId, generationAt project graphId nodeId ≤ generationAt next graphId nodeId

theorem Grows.refl (project : ProjectDocument) : Grows project project := fun _ _ => Nat.le_refl _

theorem Grows.trans {next last : ProjectDocument} (h : Grows project next) (h' : Grows next last) :
    Grows project last :=
  fun graphId nodeId => Nat.le_trans (h graphId nodeId) (h' graphId nodeId)

theorem get?_filter_key {V : Type} (d : Dict String V) (p : String → Bool) (key : String) :
    Dict.get? (d.filter (fun entry => p entry.1)) key = if p key then d.get? key else none := by
  induction d with
  | nil => simp
  | cons entry rest ih =>
    obtain ⟨k, v⟩ := entry
    by_cases hp : p k
    · by_cases hk : k = key
      · subst hk
        simp [hp, Dict.get?_cons]
      · simp [hp, Dict.get?_cons, hk, ih]
    · by_cases hk : k = key
      · subst hk
        simp [hp, ih]
      · simp [hp, Dict.get?_cons, hk, ih]

theorem generationOf_withDocument (document : GraphDocument) (graph : GraphDefinition)
    (nodeId : String) : generationOf (withDocument document graph) nodeId =
      if nodeId ∈ nodeIds document then generationOf graph nodeId else 0 := by
  have hget := get?_filter_key graph.refreshGenerations
    (fun id => decide (id ∈ nodeIds document)) nodeId
  unfold generationOf withDocument
  simp only [hget]
  by_cases hmem : nodeId ∈ nodeIds document <;> simp [hmem]

theorem mem_nodeIds_of_generation (h : validateGraph graph = .ok ())
    (hpositive : 0 < generationOf graph nodeId) : nodeId ∈ nodeIds graph.document := by
  apply mem_nodeIds_of_key h
  by_contra hnot
  simp [generationOf, Dict.get?_eq_none hnot] at hpositive

theorem grows_changed (hgraph : project.getGraph graphId = some graph)
    (change : GraphDefinition → GraphDefinition) (hid : ∀ held, (change held).id = held.id)
    (hchange : ∀ nodeId, generationOf graph nodeId ≤ generationOf (change graph) nodeId) :
    Grows project (changed project graphId change) := by
  intro otherId nodeId
  by_cases hother : otherId = graphId
  · subst hother
    rw [generationAt_some hgraph, generationAt_some (getGraph_changed hgraph change hid)]
    exact hchange nodeId
  · unfold generationAt
    rw [getGraph_changed_ne hother change hid]

end Generations

variable {project : ProjectDocument} {graphId : String} {head : Head}

section Keeping

/-- What happens to a Project's head. -/
inductive Event
  | applied (command : ProjectCommand)
  | restored (head : Head)

/-- The step loses no generation. Refreshed nodes are not removed, a document
is not replaced by one without them, their Graph is not removed, and a restored
head is nowhere behind. -/
def KeepsGenerations (head : Head) : Event → Prop
  | .applied (.removeGraph graphId) => ∀ nodeId, generationAt head.2 graphId nodeId = 0
  | .applied (.inGraph graphId (.removeNodes removed)) =>
    ∀ nodeId ∈ removed, generationAt head.2 graphId nodeId = 0
  | .applied (.inGraph graphId (.replaceDocument document)) =>
    ∀ nodeId, 0 < generationAt head.2 graphId nodeId → nodeId ∈ nodeIds document
  | .restored held => Grows head.2 held.2
  | _ => True

variable {casefold : String → String} {destination : String → Option String}
  {document : GraphDocument}

theorem mem_editNode_ids (editedId : String) (command : GraphCommand)
    (hnode : nodeId ∈ nodeIds document) :
    nodeId ∈ (editNode document editedId (edited command)).map GraphNode.id := by
  obtain ⟨node, hmem, rfl⟩ := List.mem_map.mp hnode
  refine List.mem_map.mpr ⟨_, List.mem_map_of_mem hmem, ?_⟩
  split_ifs
  · exact edited_id command node
  · rfl

/-- A node stays unless it is removed or the document is replaced. -/
theorem mem_nodeIds_outcome (command : GraphCommand) (hnode : nodeId ∈ nodeIds document) :
    nodeId ∈ nodeIds (outcome document command) ∨
      (∃ removed, command = .removeNodes removed ∧ nodeId ∈ removed) ∨
      command = .replaceDocument (outcome document command) := by
  cases command with
  | removeNodes removed =>
    by_cases hremoved : nodeId ∈ removed
    · exact Or.inr (Or.inl ⟨removed, rfl, hremoved⟩)
    · left
      obtain ⟨node, hheld, rfl⟩ := List.mem_map.mp hnode
      exact List.mem_map.mpr ⟨node, List.mem_filter.mpr ⟨hheld, by simpa using hremoved⟩, rfl⟩
  | replaceDocument replacement => exact Or.inr (Or.inr rfl)
  | addNode node | duplicateNode source node =>
    left
    simp only [outcome, nodeIds, List.map_append, List.mem_append]
    exact Or.inl hnode
  | moveNodes positions =>
    left
    obtain ⟨node, hmem, rfl⟩ := List.mem_map.mp hnode
    exact List.mem_map.mpr ⟨_, List.mem_map_of_mem hmem, movedNode_id positions node⟩
  | updateNodeConfiguration id field value expectedValue
  | updateNodeLayout id layout expectedLayout
  | updateNodeConfigurationAndInputPlugs id config plugs expectedConfig ids
  | setNodeArtifactTypeBinding id binding expectedBinding
  | clearNodeArtifactTypeBinding id typeVariable expectedBinding =>
    exact Or.inl (mem_editNode_ids id _ hnode)
  | setNodeInputPlugs id plugs ids => exact Or.inl (mem_editNode_ids id _ hnode)
  | _ => exact Or.inl hnode

/-- A Graph given a document that has the nodes with a generation. -/
theorem grows_replaceDocument (hgraph : project.getGraph graphId = some graph)
    (hkeeps : ∀ nodeId, 0 < generationOf graph nodeId → nodeId ∈ nodeIds document) :
    Grows project (changed project graphId (withDocument document)) := by
  refine grows_changed hgraph (withDocument document) (fun _ => rfl) ?_
  intro nodeId
  rw [generationOf_withDocument]
  split_ifs with hmem
  · exact Nat.le_refl _
  · by_contra hlt
    exact hmem (hkeeps nodeId (by omega))

/-- A command that loses no generation lowers none. -/
theorem grows_apply {next : Head} {command : ProjectCommand}
    (hok : ProjectOk destination casefold head.2)
    (hkeeps : KeepsGenerations head (.applied command))
    (h : applyProjectCommand casefold destination head.1 head.2 command = .ok next) :
    Grows head.2 next.2 := by
  cases applyProjectCommand_step h with
  | renameProject => exact Grows.refl _
  | addGraph =>
    intro otherId nodeId
    cases hother : head.2.getGraph otherId with
    | none => simp [generationAt, hother]
    | some graph =>
      have hfound : head.2.graphs.find? (fun held => held.id = otherId) = some graph := hother
      have hstill : ∀ added, ProjectDocument.getGraph ⟨head.2.graphs ++ [added]⟩ otherId =
          some graph := by
        intro added
        simp [ProjectDocument.getGraph, List.find?_append, hfound]
      rw [generationAt_some hother, generationAt_some (hstill _)]
  | renameGraph hgraph =>
    exact grows_changed hgraph _ (fun _ => rfl) (fun _ => Nat.le_refl _)
  | @removeGraph graphId =>
    intro otherId nodeId
    by_cases hother : otherId = graphId
    · subst hother
      rw [hkeeps nodeId]
      exact Nat.zero_le _
    · unfold generationAt
      have hstill : ProjectDocument.getGraph
          ⟨head.2.graphs.filter (fun graph => graph.id ≠ graphId)⟩ otherId =
            head.2.getGraph otherId := by
        unfold ProjectDocument.getGraph
        rw [List.find?_filter]
        congr 1
        funext graph
        by_cases hid : graph.id = otherId
        · simp [hid, hother]
        · simp [hid]
      rw [hstill]
  | refreshNode hgraph =>
    refine grows_changed hgraph _ (fun _ => rfl) ?_
    intro otherNode
    unfold refreshedTo generationOf
    rw [Dict.get?_set]
    split_ifs with hnode
    · subst hnode
      exact Nat.le_succ _
    · exact Nat.le_refl _
  | addCallNode hgraph hdocument =>
    obtain ⟨-, rfl⟩ := buildDocument_ok.mp hdocument
    have hrules := (hok.graphs _ (mem_graphs_of_getGraph hgraph).1).rules
    refine grows_replaceDocument hgraph ?_
    intro otherNode hpositive
    have hmem := mem_nodeIds_of_generation hrules hpositive
    simp only [nodeIds, List.map_append, List.mem_append]
    exact Or.inl hmem
  | @inGraph _ command _ _ hgraph hdocument =>
    have hgraphOk := hok.graphs _ (mem_graphs_of_getGraph hgraph).1
    refine grows_replaceDocument hgraph ?_
    intro nodeId hpositive
    have hgeneration := generationAt_some hgraph nodeId
    have hmem := mem_nodeIds_of_generation hgraphOk.rules hpositive
    obtain rfl := applyGraphCommand_outcome hgraphOk.document hdocument
    rcases mem_nodeIds_outcome command hmem with hstill | ⟨removed, rfl, hremoved⟩ | hreplaced
    · exact hstill
    · have hzero := hkeeps nodeId hremoved
      omega
    · rw [hreplaced] at hkeeps
      exact hkeeps nodeId (by omega)

end Keeping

section Histories

variable {casefold : String → String} {destination : String → Option String} {heads : List Head}

/-- The heads a Project has had, newest first: commands are applied one after
the other, and a checkpoint brings back an earlier head. Every step is allowed
in the head it is taken from. -/
inductive History (casefold : String → String) (destination : String → Option String)
    (Allowed : Head → Event → Prop) : List Head → Prop
  | start {head : Head} (hok : ProjectOk destination casefold head.2) :
    History casefold destination Allowed [head]
  | command {head next : Head} {earlier : List Head} {command : ProjectCommand}
      (h : History casefold destination Allowed (head :: earlier))
      (hallowed : Allowed head (.applied command)) (hgiven : command.Given destination)
      (haccepted : applyProjectCommand casefold destination head.1 head.2 command = .ok next) :
    History casefold destination Allowed (next :: head :: earlier)
  | restore {head held : Head} {earlier : List Head}
      (h : History casefold destination Allowed (head :: earlier))
      (hallowed : Allowed head (.restored held)) (hheld : held ∈ head :: earlier) :
    History casefold destination Allowed (held :: head :: earlier)

theorem History.projectOk (hdestination : Normalising destination) {Allowed : Head → Event → Prop}
    (h : History casefold destination Allowed heads) :
    ∀ head ∈ heads, ProjectOk destination casefold head.2 := by
  induction h with
  | start hok => simpa using hok
  | command _ _ hgiven haccepted ih =>
    refine List.forall_mem_cons.mpr ⟨?_, ih⟩
    exact projectOk_apply hdestination (ih _ (List.mem_cons_self ..)) hgiven haccepted
  | restore _ _ hheld ih => exact List.forall_mem_cons.mpr ⟨ih _ hheld, ih⟩

/-- While no generation is lost, the newest head has the highest ones. -/
theorem History.grows (hdestination : Normalising destination)
    (h : History casefold destination KeepsGenerations heads) :
    ∀ head ∈ heads.head?, ∀ old ∈ heads, Grows old.2 head.2 := by
  induction h with
  | start _ =>
    simp only [List.head?_cons, Option.mem_some_iff, forall_eq', List.forall_mem_singleton]
    exact Grows.refl _
  | @command head next earlier command hhistory hkeeps _ haccepted ih =>
    simp only [List.head?_cons, Option.mem_some_iff, forall_eq'] at ih ⊢
    have hok := hhistory.projectOk hdestination head (List.mem_cons_self ..)
    have hstep := grows_apply hok hkeeps haccepted
    refine List.forall_mem_cons.mpr ⟨Grows.refl _, ?_⟩
    exact fun old hold => (ih old hold).trans hstep
  | restore _ hkeeps _ ih =>
    simp only [List.head?_cons, Option.mem_some_iff, forall_eq'] at ih ⊢
    refine List.forall_mem_cons.mpr ⟨Grows.refl _, ?_⟩
    exact fun old hold => (ih old hold).trans hkeeps

theorem generationAt_refreshed {next : Head} {expectedGeneration : ℕ}
    (h : applyProjectCommand casefold destination head.1 head.2 (.refreshNode graphId nodeId
      expectedGeneration) = .ok next) :
    generationAt next.2 graphId nodeId = generationAt head.2 graphId nodeId + 1 := by
  cases applyProjectCommand_step h with
  | @refreshNode _ _ graph _ hgraph =>
    have hnext := getGraph_changed hgraph (refreshedTo nodeId (generationOf graph nodeId + 1))
      (fun _ => rfl)
    rw [generationAt_some hgraph, generationAt_some hnext]
    simp [generationOf, refreshedTo]

end Histories

section Freshness

variable {casefold : String → String} {destination : String → Option String}
  {sha256 : String → Fingerprint}

/-- A fingerprint of the node, at whatever call path of whatever Graph is run. -/
def HasFingerprint (sha256 : String → Fingerprint) (facts : FingerprintFacts)
    (project : ProjectDocument) (graphId nodeId : String) (fingerprint : Fingerprint) : Prop :=
  ∃ target projectId expanded fps key, expandGraph project target projectId = .ok expanded ∧
    computeFingerprints sha256 expanded facts = .ok fps ∧ key.graphId = graphId ∧
    key.nodeId = nodeId ∧ fps.get? key = some fingerprint

/-- An instance of an expansion has the document's node and its generation. -/
theorem instance_of_expansion {project : ProjectDocument} (hvalid : project.Valid casefold)
    {target projectId : String} {expanded : ExpandedGraph}
    (hexpand : expandGraph project target projectId = .ok expanded) {key : InstanceKey}
    {inst : ExpandedInstance} (hinst : expanded.instances.get? key = some inst) :
    nodeAt project key.graphId key.nodeId = some inst.node ∧
      inst.refreshGeneration = generationAt project key.graphId key.nodeId := by
  have hwf := hvalid.wellFormed
  obtain ⟨targetGraph, htarget, hexp⟩ := expandGraph_ok hwf hexpand
  obtain ⟨caller, visit, node, hplaced, hnode, hcall, rfl⟩ := hexp.placed hinst
  cases hinst.symm.trans (hexp.get hplaced hnode hcall)
  have hmem := hplaced.calls.mem_graphs (List.mem_of_find?_eq_some htarget)
  have hgraph : project.getGraph visit.graph.id = some visit.graph := getGraph_of_mem hwf.ids hmem
  refine ⟨?_, (generationAt_some hgraph node.id).symm⟩
  have hids := (hwf.anchored visit.graph hmem).nodeIds
  simp only [nodeAt, keyAt, hgraph, Option.bind_some]
  cases hfind : visit.graph.document.nodes.find? (fun held => held.id = node.id) with
  | none =>
    have hnone := List.find?_eq_none.mp hfind node hnode
    simp at hnone
  | some found =>
    have hid : found.id = node.id := by simpa using List.find?_some hfind
    have hsame := List.inj_on_of_nodup_map hids (List.mem_of_find?_eq_some hfind) hnode hid
    exact hfind.trans (congrArg some hsame)

/-- A node that is never cached has one fingerprint only at one generation. -/
theorem generationAt_eq_of_fingerprint (hsha : Function.Injective sha256)
    {project' : ProjectDocument} (hvalid : project.Valid casefold)
    (hvalid' : project'.Valid casefold) {facts facts' : FingerprintFacts}
    (hpolicy : ∀ node ∈ nodeAt project graphId nodeId, facts.cachePolicy node = .never)
    {fingerprint : Fingerprint} (h : HasFingerprint sha256 facts project graphId nodeId fingerprint)
    (h' : HasFingerprint sha256 facts' project' graphId nodeId fingerprint) :
    generationAt project graphId nodeId = generationAt project' graphId nodeId := by
  obtain ⟨target, projectId, expanded, fps, key, hexpand, hfps, rfl, rfl, hkey⟩ := h
  obtain ⟨target', projectId', expanded', fps', key', hexpand', hfps', hgraph, hnode, hkey'⟩ := h'
  have halike := alike_of_fingerprinted hsha (computeFingerprints_ok hfps).1
    (computeFingerprints_ok hfps').1 hkey hkey'
  cases halike with
  | intro hinst hinst' hsame =>
    obtain ⟨hheld, hgeneration⟩ := instance_of_expansion hvalid hexpand hinst
    obtain ⟨-, hgeneration'⟩ := instance_of_expansion hvalid' hexpand' hinst'
    rw [← hgeneration, ← hgraph, ← hnode, ← hgeneration']
    exact hsame.refreshGeneration (hpolicy _ hheld)

/-- In a history that loses no generation, the fingerprint of a node that is
never cached is new after every accepted refresh: no earlier head, whatever
the facts then were, has it for the node. -/
theorem refreshed_fingerprint_new (hdestination : Normalising destination)
    (hsha : Function.Injective sha256) {head next : Head} {earlier : List Head}
    (hhistory : History casefold destination KeepsGenerations (head :: earlier))
    {graphId nodeId : String} {expectedGeneration : ℕ}
    (hrefresh : applyProjectCommand casefold destination head.1 head.2
      (.refreshNode graphId nodeId expectedGeneration) = .ok next)
    {facts : FingerprintFacts}
    (hpolicy : ∀ node ∈ nodeAt next.2 graphId nodeId, facts.cachePolicy node = .never)
    {fingerprint : Fingerprint}
    (hnew : HasFingerprint sha256 facts next.2 graphId nodeId fingerprint) :
    ∀ old ∈ head :: earlier, ∀ facts',
      ¬ HasFingerprint sha256 facts' old.2 graphId nodeId fingerprint := by
  intro old hold facts' hearlier
  have hkeeps : KeepsGenerations head (.applied (.refreshNode graphId nodeId expectedGeneration)) :=
    trivial
  have hgiven : (ProjectCommand.refreshNode graphId nodeId expectedGeneration).Given destination :=
    trivial
  have hall : ∀ held ∈ next :: head :: earlier, ProjectOk destination casefold held.2 :=
    (History.command hhistory hkeeps hgiven hrefresh).projectOk hdestination
  have hvalid := (hall next (List.mem_cons_self ..)).valid
  have hvalid' := (hall old (List.mem_cons_of_mem _ hold)).valid
  have hsame := generationAt_eq_of_fingerprint hsha hvalid hvalid' hpolicy hnew hearlier
  have hraised := generationAt_refreshed hrefresh
  have hgrown := hhistory.grows hdestination head rfl old hold graphId nodeId
  omega

end Freshness

section Resets

def loadGraph (generations : Dict String ℕ) : GraphDefinition :=
  { limitedGraph [] with refreshGenerations := generations }

def loadProject (generations : Dict String ℕ) : ProjectDocument := ⟨[loadGraph generations]⟩

def emptyProject : ProjectDocument := ⟨[⟨"main", "Main", ⟨[], [], [], [], ⟨[], [], [], []⟩⟩, []⟩]⟩

/-- No node is served from the cache. -/
def uncachedFacts : FingerprintFacts := ⟨fun node => node.operatorId, fun _ => .never, fun _ => []⟩

theorem loadProject_ok {generations : Dict String ℕ}
    (h : generations = [] ∨ generations = [("load", 1)]) :
    ProjectOk knownDestination id (loadProject generations) := by
  have hok := (limitedProject_ok []).graphs (limitedGraph []) (List.mem_singleton_self _)
  refine ⟨?_, by rcases h with rfl | rfl <;> decide⟩
  simp only [loadProject, List.forall_mem_singleton]
  exact ⟨hok.id, hok.name, hok.document, by rcases h with rfl | rfl <;> decide⟩

theorem refresh_accepted :
    applyProjectCommand id knownDestination "Draft" (loadProject [])
      (.refreshNode "main" "load" 0) =
      .ok ("Draft", loadProject [("load", 1)]) := by
  have hok := loadProject_ok (Or.inr rfl)
  refine bind_ok.mpr ⟨loadGraph [], by rfl, bind_ok.mpr ⟨_, by rfl, bind_ok.mpr
    ⟨(), require_ok.mpr (by decide), bind_ok.mpr ⟨(), require_ok.mpr rfl, bind_ok.mpr
      ⟨_, changeGraph_ok.mpr ⟨⟨?_, hok.rules⟩, rfl⟩, rfl⟩⟩⟩⟩⟩
  simp only [loadProject, List.forall_mem_singleton]
  exact fun _ => (hok.graphs _ (List.mem_singleton_self _)).rules

theorem hasFingerprint_refreshed (sha256 : String → Fingerprint) :
    ∃ fingerprint, HasFingerprint sha256 uncachedFacts (loadProject [("load", 1)]) "main" "load"
      fingerprint := by
  have hvalid := (loadProject_ok (Or.inr rfl)).valid
  have horder : (expandGraph (loadProject [("load", 1)]) "main" "p").map ExpandedGraph.order =
      .ok [⟨"p", "main", [], "load", none⟩] := by decide
  cases hexpand : expandGraph (loadProject [("load", 1)]) "main" "p" with
  | error e => simp [hexpand, Except.map] at horder
  | ok expanded =>
    obtain ⟨target, -, hexp⟩ := expandGraph_ok hvalid.wellFormed hexpand
    obtain ⟨fps, hfps⟩ :=
      computeFingerprints_exists sha256 uncachedFacts hexp.topological hexp.closed
    have hkeys : expanded.order = [⟨"p", "main", [], "load", none⟩] := by
      simpa [hexpand, Except.map] using horder
    have hsome := (computeFingerprints_ok hfps).2 ⟨"p", "main", [], "load", none⟩ (by simp [hkeys])
    obtain ⟨fingerprint, hfingerprint⟩ := Option.isSome_iff_exists.mp hsome
    exact ⟨fingerprint, "main", "p", expanded, fps, _, hexpand, hfps, rfl, rfl, hfingerprint⟩

def loadNode : GraphNode := ⟨.builtin, "load", "files.load", 1, [], default, none, [], []⟩

theorem remove_accepted {generations : Dict String ℕ}
    (h : generations = [] ∨ generations = [("load", 1)]) :
    applyProjectCommand id knownDestination "Draft" (loadProject generations)
      (.inGraph "main" (.removeNodes ["load"])) = .ok ("Draft", emptyProject) := by
  rcases h with rfl | rfl
  all_goals
    refine bind_ok.mpr ⟨loadGraph _, by rfl, bind_ok.mpr
      ⟨⟨[], [], [], [], ⟨[], [], [], []⟩⟩, by rfl,
      bind_ok.mpr ⟨_, changeGraph_ok.mpr ⟨⟨?_, ?_⟩, rfl⟩, by rfl⟩⟩⟩
    · simp only [loadProject, List.forall_mem_singleton]
      decide
    · decide

theorem add_accepted :
    applyProjectCommand id knownDestination "Draft" emptyProject
      (.inGraph "main" (.addNode loadNode)) =
      .ok ("Draft", loadProject []) := by
  have hok := loadProject_ok (Or.inl rfl)
  have hgraph := hok.graphs (loadGraph []) (List.mem_singleton_self _)
  refine bind_ok.mpr ⟨_, by rfl, bind_ok.mpr ⟨(loadGraph []).document, bind_ok.mpr
    ⟨(), require_ok.mpr (by decide), buildDocument_ok.mpr ⟨hgraph.document.rules, rfl⟩⟩, bind_ok.mpr
      ⟨_, changeGraph_ok.mpr ⟨⟨?_, hok.rules⟩, rfl⟩, rfl⟩⟩⟩
  simp only [emptyProject, List.forall_mem_singleton]
  exact fun _ => hgraph.rules

theorem loadNode_given :
    (ProjectCommand.inGraph "main" (.addNode loadNode)).Given knownDestination := by
  have hnode := ((loadProject_ok (Or.inl rfl)).graphs (loadGraph [])
    (List.mem_singleton_self _)).document.nodes loadNode (List.mem_singleton_self _)
  exact ⟨_, readNode_dump hnode⟩

theorem removal_given :
    (ProjectCommand.inGraph "main" (.removeNodes ["load"])).Given knownDestination := by
  simp [ProjectCommand.Given, GraphCommand.Given]

/-- A node that was never refreshed is removed and added again, and only then refreshed. -/
theorem refreshed_load_new : ∃ earlier fingerprint,
    History id knownDestination KeepsGenerations (("Draft", loadProject []) :: earlier) ∧
      earlier.length = 2 ∧
      HasFingerprint id uncachedFacts (loadProject [("load", 1)]) "main" "load" fingerprint ∧
      ∀ old ∈ ("Draft", loadProject []) :: earlier, ∀ facts,
        ¬ HasFingerprint id facts old.2 "main" "load" fingerprint := by
  obtain ⟨fingerprint, hnew⟩ := hasFingerprint_refreshed id
  have hstart : History id knownDestination KeepsGenerations [("Draft", loadProject [])] :=
    .start (loadProject_ok (Or.inl rfl))
  have hunrefreshed : KeepsGenerations ("Draft", loadProject [])
      (.applied (.inGraph "main" (.removeNodes ["load"]))) := by
    intro nodeId hnode
    obtain rfl := List.mem_singleton.mp hnode
    rfl
  have hremoved := History.command hstart hunrefreshed removal_given (remove_accepted (Or.inl rfl))
  have hadded := History.command hremoved (by trivial) loadNode_given add_accepted
  refine ⟨_, fingerprint, hadded, rfl, hnew, ?_⟩
  exact refreshed_fingerprint_new knownDestination_normalising Function.injective_id hadded
    refresh_accepted (fun _ _ => rfl) hnew

/-- A node is refreshed, removed, added again and refreshed again: it is back
at a generation it had, and at the fingerprint it had there. -/
theorem refresh_repeats : ∃ head earlier next,
    History id knownDestination (fun _ _ => True) (head :: earlier) ∧
      applyProjectCommand id knownDestination head.1 head.2
        (.refreshNode "main" "load" 0) = .ok next ∧
      ∀ sha256, ∃ fingerprint,
        HasFingerprint sha256 uncachedFacts next.2 "main" "load" fingerprint ∧
        ∃ old ∈ earlier, HasFingerprint sha256 uncachedFacts old.2 "main" "load" fingerprint := by
  have hstart : History id knownDestination (fun _ _ => True) [("Draft", loadProject [])] :=
    .start (loadProject_ok (Or.inl rfl))
  have hgiven : (ProjectCommand.refreshNode "main" "load" 0).Given knownDestination := trivial
  have hrefreshed := History.command hstart trivial hgiven refresh_accepted
  have hremoved := History.command hrefreshed trivial removal_given (remove_accepted (Or.inr rfl))
  have hadded := History.command hremoved trivial loadNode_given add_accepted
  refine ⟨_, _, _, hadded, refresh_accepted, ?_⟩
  intro sha256
  obtain ⟨fingerprint, hfingerprint⟩ := hasFingerprint_refreshed sha256
  exact ⟨fingerprint, hfingerprint, ("Draft", loadProject [("load", 1)]), by simp, hfingerprint⟩

end Resets

end Grafy.RefreshHistory
