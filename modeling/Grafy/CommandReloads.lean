import Grafy.CommandValidity

/-!
Heads that load again. Validation freezes the configuration of a node into
tuples. The two commands that write configurations leave them in the lists of
the JSON value, until the node is validated once more. A batch is sound when
every document on its way reloads as an equal one and is in no later command's
way.
-/
namespace Grafy.Commands

open CanonicalJson DocumentRules Dumps GraphDocuments Loops OrderedDict Project Reloading Validation

section Thawing

/-- The configurations held in lists after a command. A node that is given and
the document an agent is changed in are validated. -/
def GraphCommand.thawedAfter (graphId : String) (thawed : Thawed) : GraphCommand → Thawed
  | .updateNodeConfiguration nodeId .. => (graphId, nodeId) :: thawed
  | .updateNodeConfigurationAndInputPlugs nodeId .. => (graphId, nodeId) :: thawed
  | .addNode node => thawed.filter (fun entry => entry ≠ (graphId, node.id))
  | .duplicateNode _ node => thawed.filter (fun entry => entry ≠ (graphId, node.id))
  | .addAgent _ | .configureAgent _ | .removeAgent _ | .replaceDocument _ =>
    thawed.filter (fun entry => entry.1 ≠ graphId)
  | _ => thawed

def ProjectCommand.thawedAfter (thawed : Thawed) : ProjectCommand → Thawed
  | .addGraph graphId _ _ => thawed.filter (fun entry => entry.1 ≠ graphId)
  | .addCallNode graphId nodeId _ _ => thawed.filter (fun entry => entry ≠ (graphId, nodeId))
  | .inGraph graphId command => command.thawedAfter graphId thawed
  | _ => thawed

/-- The configuration a command leaves in lists holds no array. -/
def GraphCommand.LeavesNoArray (document : GraphDocument) : GraphCommand → Prop
  | .updateNodeConfiguration nodeId field value _ => ∀ node ∈ document.nodes, node.id = nodeId →
    memberHoldsArray (node.config.set field value) = false
  | .updateNodeConfigurationAndInputPlugs _ config _ _ _ => memberHoldsArray config = false
  | _ => True

def ProjectCommand.LeavesNoArray (project : ProjectDocument) : ProjectCommand → Prop
  | .inGraph graphId command => ∀ graph, project.getGraph graphId = some graph →
    command.LeavesNoArray graph.document
  | _ => True

end Thawing

variable {destination : String → Option String} {casefold : String → String}
    {thawed thawed' : Thawed}
  {graphId nodeId : String}

section Graphs

variable {document result : GraphDocument} {nodes : List GraphNode} {change : GraphNode → GraphNode}

theorem equalFrozen_map (h : EqualFrozen thawed graphId nodes)
    (hid : ∀ node, (change node).id = node.id)
    (hconfig : ∀ node, (change node).config = node.config) :
    EqualFrozen thawed graphId (nodes.map change) := by
  intro node hnode hthawed
  obtain ⟨held, hheld, rfl⟩ := List.mem_map.mp hnode
  rw [hid] at hthawed
  rw [hconfig]
  exact h held hheld hthawed

theorem equalFrozen_edit (h : EqualFrozen thawed graphId document.nodes)
    (hid : ∀ node, (change node).id = node.id)
    (hconfig : ∀ node, (change node).config = node.config) :
    EqualFrozen thawed graphId (editNode document nodeId change) := by
  refine equalFrozen_map h (fun node => ?_) (fun node => ?_)
  · split_ifs
    · exact hid node
    · rfl
  · split_ifs
    · exact hconfig node
    · rfl

/-- A node whose configuration is left in lists is judged by it. -/
theorem equalFrozen_configured_iff (h : EqualFrozen thawed graphId document.nodes)
    (hid : ∀ node, (change node).id = node.id) :
    EqualFrozen ((graphId, nodeId) :: thawed) graphId (editNode document nodeId change) ↔
      ∀ node ∈ document.nodes, node.id = nodeId → memberHoldsArray
        (change node).config = false := by
  constructor
  · intro hafter node hnode hsame
    refine hafter (change node) (List.mem_map.mpr ⟨node, hnode, if_pos hsame⟩) ?_
    rw [hid, hsame]
    exact List.mem_cons_self
  · intro hleaves node hnode hthawed
    obtain ⟨held, hheld, rfl⟩ := List.mem_map.mp hnode
    by_cases hsame : held.id = nodeId
    · rw [if_pos hsame]
      exact hleaves held hheld hsame
    · rw [if_neg hsame] at hthawed ⊢
      exact h held hheld (by simpa [hsame] using hthawed)

theorem equalFrozen_append {node : GraphNode} (h : EqualFrozen thawed graphId nodes) :
    EqualFrozen (thawed.filter (fun entry => entry ≠ (graphId, node.id))) graphId
      (nodes ++ [node]) := by
  intro held hheld hthawed
  obtain ⟨hold, hne⟩ := List.mem_filter.mp hthawed
  rcases mem_snoc.mp hheld with hheld | rfl
  · exact h held hheld hold
  · simp at hne

theorem equalFrozen_validated : EqualFrozen
    (thawed.filter (fun entry => entry.1 ≠ graphId)) graphId nodes := by
  intro node _ hthawed
  simp at hthawed

/-- What a command leaves equals its reloaded form when it leaves no array in
lists. -/
theorem equalFrozen_outcome_iff {command : GraphCommand}
    (h : EqualFrozen thawed graphId document.nodes)
    (haccepted : applyGraphCommand destination document command = .ok result) :
    EqualFrozen (command.thawedAfter graphId thawed) graphId (outcome document command).nodes ↔
      command.LeavesNoArray document := by
  cases command with
  | updateNodeConfiguration nodeId field value expectedValue =>
    exact equalFrozen_configured_iff h (edited_id _)
  | updateNodeConfigurationAndInputPlugs nodeId config plugs expectedConfig ids =>
    obtain ⟨node, hnode, -⟩ := bind_ok.mp haccepted
    have hfound := nodeOrRaise_ok.mp hnode
    refine (equalFrozen_configured_iff h (edited_id _)).trans
      ⟨fun hleaves => ?_, fun hconfig _ _ _ => hconfig⟩
    exact hleaves node (List.mem_of_find?_eq_some hfound) (by simpa using List.find?_some hfound)
  | addNode node | duplicateNode source node => exact iff_of_true (equalFrozen_append h) trivial
  | addAgent agent | configureAgent agent | removeAgent agentId | replaceDocument replacement =>
    exact iff_of_true equalFrozen_validated trivial
  | removeNodes removed =>
    exact iff_of_true (fun node hnode => h node (List.mem_filter.mp hnode).1) trivial
  | moveNodes positions =>
    refine iff_of_true (equalFrozen_map h (movedNode_id positions) (fun node => ?_)) trivial
    unfold movedNode
    split <;> rfl
  | updateNodeLayout nodeId layout expectedLayout | setNodeInputPlugs nodeId plugs ids
  | setNodeArtifactTypeBinding nodeId binding expectedBinding
  | clearNodeArtifactTypeBinding nodeId typeVariable expectedBinding =>
    exact iff_of_true (equalFrozen_edit h (edited_id _) (fun _ => rfl)) trivial
  | _ => exact iff_of_true h trivial

end Graphs

section Projects

variable {project changed' : ProjectDocument} {name : String} {result : String × ProjectDocument}
  {command : ProjectCommand}

theorem thawedAfter_other {command : GraphCommand} {otherId : String} (hne : otherId ≠ graphId)
    (h : (otherId, nodeId) ∈ command.thawedAfter graphId thawed) : (otherId, nodeId) ∈ thawed := by
  cases command <;> simp_all [GraphCommand.thawedAfter]

/-- Only the changed Graph has to be looked at. -/
theorem projectFrozen_changed (change : GraphDefinition → GraphDefinition)
    (h : ProjectFrozen thawed project) (hid : ∀ graph, (change graph).id = graph.id)
    (hothers : ∀ otherId nodeId, otherId ≠ graphId → (otherId, nodeId) ∈ thawed' →
      (otherId, nodeId) ∈ thawed)
    (hone : ∀ graph ∈ project.graphs, graph.id = graphId →
      EqualFrozen thawed' graphId (change graph).document.nodes) :
    ProjectFrozen thawed' (changed project graphId change) := by
  intro graph hgraph
  rcases mem_changed hgraph with ⟨hold, hne⟩ | ⟨held, hheld, hsame, rfl⟩
  · exact fun node hnode hthawed => h graph hold node hnode (hothers graph.id node.id hne hthawed)
  · rw [hid, hsame]
    exact hone held hheld hsame

theorem projectFrozen_sameDocuments (change : GraphDefinition → GraphDefinition)
    (h : ProjectFrozen thawed project) (hid : ∀ graph, (change graph).id = graph.id)
    (hchange : ∀ graph, (change graph).document = graph.document) :
    ProjectFrozen thawed (changed project graphId change) := by
  refine projectFrozen_changed change h hid (fun _ _ _ hin => hin) ?_
  rintro graph hgraph rfl
  rw [hchange]
  exact h graph hgraph

theorem projectFrozen_apply_iff (hok : ProjectOk destination casefold project)
    (hfrozen : ProjectFrozen thawed project)
    (h : applyProjectCommand casefold destination name project command = .ok result) :
    ProjectFrozen (command.thawedAfter thawed) result.2 ↔ command.LeavesNoArray project := by
  cases applyProjectCommand_step h with
  | renameProject => exact iff_of_true hfrozen trivial
  | addGraph =>
    refine iff_of_true ?_ trivial
    intro graph hgraph
    rcases mem_snoc.mp hgraph with hold | rfl
    · exact fun node hnode hthawed => hfrozen graph hold node hnode (List.mem_filter.mp hthawed).1
    · exact equalFrozen_validated
  | renameGraph | refreshNode =>
    exact iff_of_true (projectFrozen_sameDocuments _ hfrozen (fun _ => rfl) (fun _ => rfl)) trivial
  | removeGraph =>
    exact iff_of_true (fun graph hgraph => hfrozen graph (List.mem_filter.mp hgraph).1) trivial
  | addCallNode hgraph hdocument =>
    obtain ⟨-, rfl⟩ := buildDocument_ok.mp hdocument
    obtain ⟨hmem, rfl⟩ := mem_graphs_of_getGraph hgraph
    refine iff_of_true (projectFrozen_changed _ hfrozen (withDocument_id _)
      (fun _ _ _ hthawed => (List.mem_filter.mp hthawed).1) (fun _ _ _ => ?_)) trivial
    exact equalFrozen_append (hfrozen _ hmem)
  | @inGraph _ command graph _ hgraph hdocument =>
    obtain ⟨hmem, rfl⟩ := mem_graphs_of_getGraph hgraph
    obtain rfl := applyGraphCommand_outcome (hok.graphs graph hmem).document hdocument
    have hnodes := equalFrozen_outcome_iff (hfrozen graph hmem) hdocument
    constructor
    · intro hafter held hheld
      obtain rfl : graph = held := Option.some.inj (hgraph.symm.trans hheld)
      exact hnodes.mp (hafter (withDocument (outcome graph.document command) graph)
        (List.mem_map.mpr ⟨graph, hmem, if_pos rfl⟩))
    · intro hleaves
      exact projectFrozen_changed _ hfrozen (withDocument_id _) (fun _ _ => thawedAfter_other)
        (fun _ _ _ => hnodes.mpr (hleaves graph hgraph))

end Projects

section Batches

variable {commands : List ProjectCommand} {last state : String × ProjectDocument}
  {project : ProjectDocument} {name : String}

/-- A head that loads from the database and is in no later command's way. -/
structure SoundHead (destination : String → Option String) (casefold : String → String)
    (thawed : Thawed) (project : ProjectDocument) : Prop where
  reloads : Reloadable destination casefold thawed project
  unobstructed : ∀ graph ∈ project.graphs, ∀ command : GraphCommand, command.editsAgents →
    ∀ rejection, applyGraphCommand destination graph.document command = .error rejection →
      rejection.code ≠ "invalid_document"

/-- What is written can be stored, and what is left in lists holds no array. -/
def Sound (thawed : Thawed) (project : ProjectDocument) : Prop :=
  StorableProject project ∧ ProjectFrozen thawed project

theorem soundHead_iff (hdestination : Normalising destination)
    (hok : ProjectOk destination casefold project) :
    SoundHead destination casefold thawed project ↔ Sound thawed project := by
  constructor
  · intro h
    exact ⟨((readProject_dump_iff hdestination).mp h.reloads.1).2, h.reloads.2⟩
  · rintro ⟨hstorable, hfrozen⟩
    refine ⟨⟨(readProject_dump_iff hdestination).mpr ⟨hok, hstorable⟩, hfrozen⟩, ?_⟩
    intro graph hgraph command hagents rejection hrejected
    exact editsAgents_rejection (hok.graphs graph hgraph).document
      (hstorable graph hgraph).1 hagents
      hrejected

/-- Every document on the way is sound exactly when the first one is, all
commands are clean and none leaves an array in lists. -/
theorem Applies.sound_iff (hdestination : Normalising destination)
    (h : Applies casefold destination commands state last)
    (hok : ProjectOk destination casefold state.2)
    (hgiven : ∀ command ∈ commands, command.Given destination) (thawed : Thawed) :
    (∀ first reached, first <+: commands → Applies casefold destination first state reached →
        Sound (first.foldl ProjectCommand.thawedAfter thawed) reached.2) ↔
      Sound thawed state.2 ∧ ∀ first command reached, first ++ [command] <+: commands →
        Applies casefold destination first state reached →
          command.Clean ∧ command.LeavesNoArray reached.2 := by
  induction h generalizing thawed with
  | nil =>
    constructor
    · intro hall
      exact ⟨hall [] _ List.prefix_rfl .nil, fun first command _ hfirst => by simp at hfirst⟩
    · rintro ⟨hstart, -⟩ first reached hfirst hreached
      obtain rfl := List.prefix_nil.mp hfirst
      cases hreached
      exact hstart
  | @cons command rest state next last hstep hrest ih =>
    obtain ⟨hcommand, hothers⟩ := List.forall_mem_cons.mp hgiven
    have hih := ih (projectOk_apply hdestination hok hcommand hstep) hothers
      (command.thawedAfter thawed)
    have hone : Sound thawed state.2 → (Sound (command.thawedAfter thawed) next.2 ↔
        command.Clean ∧ command.LeavesNoArray state.2) := fun hstart =>
      and_congr (storableProject_apply_iff hdestination hok hstart.1 hcommand hstep)
        (projectFrozen_apply_iff hok hstart.2 hstep)
    constructor
    · intro hall
      have hstart : Sound thawed state.2 := hall [] state (List.nil_prefix) .nil
      have hrests := hih.mp (fun first reached hfirst hreached =>
        hall (command :: first) reached ((List.prefix_cons_inj command).mpr hfirst)
          (.cons hstep hreached))
      refine ⟨hstart, ?_⟩
      intro first other reached hfirst hreached
      cases first with
      | nil =>
        cases hreached
        obtain ⟨rfl, -⟩ := List.cons_prefix_cons.mp hfirst
        exact (hone hstart).mp hrests.1
      | cons head tail =>
        obtain ⟨rfl, htail⟩ := List.cons_prefix_cons.mp hfirst
        obtain ⟨middle, hmiddle, hreached⟩ := Applies.cons_iff.mp hreached
        obtain rfl : next = middle := Except.ok.inj (hstep.symm.trans hmiddle)
        exact hrests.2 tail other reached htail hreached
    · rintro ⟨hstart, hall⟩ first reached hfirst hreached
      cases first with
      | nil =>
        cases hreached
        exact hstart
      | cons head tail =>
        obtain ⟨rfl, htail⟩ := List.cons_prefix_cons.mp hfirst
        obtain ⟨middle, hmiddle, hreached⟩ := Applies.cons_iff.mp hreached
        obtain rfl : next = middle := Except.ok.inj (hstep.symm.trans hmiddle)
        have hnext := (hone hstart).mpr
          (hall [] head state ((List.prefix_cons_inj head).mpr List.nil_prefix) .nil)
        refine hih.mpr ⟨hnext, ?_⟩ tail reached htail hreached
        intro first other reached hfirst hreached
        exact hall (head :: first) other reached ((List.prefix_cons_inj head).mpr hfirst)
          (.cons hstep hreached)

end Batches

section Limits

def setLimit (value : Json) : ProjectCommand :=
  .inGraph "main" (.updateNodeConfiguration "load" "limit" value .null)

def notANumber : FloatLiteral :=
  ⟨['N', 'a', 'N'], by simp [isNumberChar], by simp [isFloatMark],
    ⟨_, _, rfl, by simp [startsNumber]⟩⟩

theorem setLimit_accepted (value : Json) :
    applyProjectCommands id knownDestination "Draft" (limitedProject []) [setLimit value] =
      .ok ("Draft", limitedProject [("limit", value)]) :=
  applyProjectCommands_ok.mpr ⟨by simp, .cons (setField_accepted rfl value) .nil⟩

theorem limitedProject_storable : StorableProject (limitedProject []) := by
  simp [StorableProject, limitedProject, limitedGraph, Storable, FiniteNodes, EndpointsFit,
    Reloading.Finite, freezable, freezableMembers]

/-- A list is written that reads back as a tuple. -/
example : ¬ Reloadable knownDestination id ((setLimit (.arr [])).thawedAfter [])
    (limitedProject [("limit", .arr [])]) := by
  intro h
  have hnode := h.2 _ (List.mem_singleton_self _) _ (List.mem_singleton_self _)
    (List.mem_singleton_self _)
  exact absurd hnode (by decide)

def assistant : GraphAgent :=
  ⟨"a", "Assistant", "", .deployment, default, defaultAgentWidth, defaultAgentHeight⟩

end Limits

end Grafy.Commands
