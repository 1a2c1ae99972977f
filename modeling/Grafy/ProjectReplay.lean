import Grafy.RefreshHistory
import Grafy.RoomBridge

/-!
The replay of commands about the Project as a whole, beside the server. Name,
ids and order of the Graphs always agree. Commands the replay does not follow
leave a drift: a refreshed node stays at its former generation, a call is not
placed, and a name the server strips is kept as it was sent. The drift of a
Graph goes with the Graph. Integers are those the browser reads.
-/
namespace Grafy.RoomBridge

open Grafy.Alignment Commands DocumentRules GraphDocuments Loops OrderedDict Project RoomSession
open Texts

variable {graphId : String}

section Drift

/-- A command about the Project as a whole. -/
def ProjectLevel : ProjectCommand → Prop
  | .inGraph .. => False
  | _ => True

/-- In what a replayed head differs from the server's: Graphs that were given a
call, nodes that were refreshed and Graphs under a name the server stripped. -/
structure Drift where
  called : String → Prop
  refreshed : String → String → Prop
  renamed : String → Prop

def Drift.none : Drift := ⟨fun _ => False, fun _ _ => False, fun _ => False⟩

/-- A Graph that is removed takes its differences with it. -/
def Drift.after (drift : Drift) : ProjectCommand → Drift
  | .addCallNode graphId _ _ _ => { drift with called := fun id => drift.called id ∨ id = graphId }
  | .refreshNode graphId nodeId _ => { drift with
      refreshed := fun id node => drift.refreshed id node ∨ (id = graphId ∧ node = nodeId) }
  | .renameGraph graphId name _ => { drift with
      renamed := fun id => (id = graphId ∧ strip name ≠ name) ∨ (id ≠ graphId ∧ drift.renamed id) }
  | .removeGraph graphId =>
    ⟨fun id => drift.called id ∧ id ≠ graphId, fun id node => drift.refreshed id node ∧
      id ≠ graphId,
      fun id => drift.renamed id ∧ id ≠ graphId⟩
  | _ => drift

def driftOf (commands : List ProjectCommand) : Drift := commands.foldl Drift.after .none

/-- The drift of one Graph is not touched. -/
structure Drift.SameAt (drift drift' : Drift) (graphId : String) : Prop where
  called : drift'.called graphId ↔ drift.called graphId
  refreshed : ∀ nodeId, drift'.refreshed graphId nodeId ↔ drift.refreshed graphId nodeId
  renamed : drift'.renamed graphId ↔ drift.renamed graphId

end Drift

variable {drift drift' : Drift} {head : ProjectHead} {state : String × ProjectDocument}
  {graph : GraphDefinition}

section Following

/-- A Graph of the replayed head beside the server's: the same as the browser
reads it, but for the drift. A generation is one the server has had. -/
structure Follows (drift : Drift) (replayed graph : GraphDefinition) : Prop where
  id : replayed.id = graph.id
  name : ¬ drift.renamed graph.id → replayed.name = graph.name
  document : ¬ drift.called graph.id → replayed.document = parsedDocument graph.document
  generation : ∀ nodeId, ¬ drift.refreshed graph.id nodeId →
    generationOf replayed nodeId = parsedNat (generationOf graph nodeId)
  former : ∀ nodeId, ∃ generation ≤ generationOf graph nodeId,
    generationOf replayed nodeId = parsedNat generation

/-- The replayed head beside the name and document of the server. -/
structure Following (drift : Drift) (head : ProjectHead) (state : String × ProjectDocument) :
    Prop where
  name : head.name = state.1
  graphs : List.Forall₂ (Follows drift) head.document.graphs state.2.graphs
  valid : ∀ graph ∈ state.2.graphs, validateGraph graph = .ok ()
  distinct : (state.2.graphs.map GraphDefinition.id).Nodup

variable {replayed : GraphDefinition}

theorem generationOf_parsedGraph (graph : GraphDefinition) (nodeId : String) :
    generationOf (parsedGraph graph) nodeId = parsedNat (generationOf graph nodeId) := by
  simp only [generationOf, parsedGraph, Dict.get?_mapValues]
  cases graph.refreshGenerations.get? nodeId with
  | none => exact (parsedNat_of_lt (by norm_num)).symm
  | some count => rfl

/-- A Graph as the browser reads it follows the server's. -/
theorem follows_parsed (drift : Drift) (graph : GraphDefinition) :
    Follows drift (parsedGraph graph) graph where
  id := rfl
  name := fun _ => rfl
  document := fun _ => rfl
  generation := fun nodeId _ => generationOf_parsedGraph graph nodeId
  former := fun nodeId => ⟨_, Nat.le_refl _, generationOf_parsedGraph graph nodeId⟩

theorem Follows.congr (h : Follows drift replayed graph) (hsame : drift.SameAt drift' graph.id) :
    Follows drift' replayed graph where
  id := h.id
  name := fun hno => h.name (fun hin => hno (hsame.renamed.mpr hin))
  document := fun hno => h.document (fun hin => hno (hsame.called.mpr hin))
  generation := fun nodeId hno => h.generation nodeId
    (fun hin => hno ((hsame.refreshed nodeId).mpr hin))
  former := h.former

theorem Following.ids_eq (h : Following drift head state) :
    head.document.graphs.map GraphDefinition.id = state.2.graphs.map GraphDefinition.id :=
  map_eq h.graphs (fun _ _ hfollows => hfollows.id)

end Following

variable {next : String × ProjectDocument} {update : GraphDefinition → Option GraphDefinition}
  {name : String}

section Steps

variable {casefold : String → String} {destination : String → Option String}

theorem checkProject_ids {graphs : List GraphDefinition}
    (h : checkProject casefold graphs = .ok ()) :
    (graphs.map GraphDefinition.id).Nodup := by
  obtain ⟨taken, hnames, -⟩ := bind_ok.mp h
  exact checkNames_ids hnames

theorem changed_ids {project : ProjectDocument} {change : GraphDefinition → GraphDefinition}
    (hchange : ∀ graph, (change graph).id = graph.id) :
    (changed project graphId change).graphs.map GraphDefinition.id =
      project.graphs.map GraphDefinition.id := by
  unfold changed
  rw [List.map_map]
  apply List.map_congr_left
  intro graph _
  simp only [Function.comp_apply]
  split_ifs
  · exact hchange graph
  · rfl

/-- One Graph changed on both sides, in their own ways. -/
theorem Following.change (h : Following drift head state)
    (changeReplayed change : GraphDefinition → GraphDefinition)
    (hid : ∀ graph, (change graph).id = graph.id)
    (hsame : ∀ replayed, ∀ graph ∈ state.2.graphs, graph.id = graphId →
      Follows drift replayed graph → Follows drift' (changeReplayed replayed) (change graph))
    (hother : ∀ id, id ≠ graphId → drift.SameAt drift' id)
    (hvalid : ∀ graph ∈ state.2.graphs, graph.id = graphId → validateGraph (change graph) = .ok ())
    {replayed : ProjectHead} (hname : replayed.name = head.name)
    (hreplayed : replayed.document = changed head.document graphId changeReplayed) :
    Following drift' replayed (state.1, changed state.2 graphId change) where
  name := hname.trans h.name
  graphs := by
    rw [hreplayed]
    simp only [changed]
    rw [List.forall₂_map_left_iff, List.forall₂_map_right_iff]
    refine (with_mem h.graphs).imp ?_
    rintro replayed graph ⟨-, hgraph, hfollows⟩
    by_cases hsameId : graph.id = graphId
    · rw [if_pos (hfollows.id.trans hsameId), if_pos hsameId]
      exact hsame replayed graph hgraph hsameId hfollows
    · rw [if_neg (fun heq => hsameId (hfollows.id.symm.trans heq)), if_neg hsameId]
      exact hfollows.congr (hother graph.id hsameId)
  valid := by
    intro graph hgraph
    rcases mem_changed hgraph with ⟨hold, -⟩ | ⟨held, hmem, hsameId, rfl⟩
    · exact h.valid graph hold
    · exact hvalid held hmem hsameId
  distinct := by
    rw [changed_ids hid]
    exact h.distinct

theorem withDocument_addNode (hvalid : validateGraph graph = .ok ()) (node : GraphNode) :
    withDocument { graph.document with nodes := graph.document.nodes ++ [node] } graph =
      { graph with document := { graph.document with nodes := graph.document.nodes ++
        [node] } } := by
  have hkept : graph.refreshGenerations.filter (fun entry => entry.1 ∈
      nodeIds { graph.document with nodes := graph.document.nodes ++ [node] }) =
        graph.refreshGenerations := by
    rw [List.filter_eq_self]
    intro entry hentry
    have hmem := mem_nodeIds_of_key hvalid (List.mem_map_of_mem hentry)
    simp only [nodeIds, List.map_append, List.mem_append, decide_eq_true_eq] at hmem ⊢
    exact .inl hmem
  unfold withDocument
  rw [hkept]

/-- The Graph a command names is one of the replayed head too. -/
theorem mapGraphDocument_eq {change : GraphDefinition → GraphDefinition}
    (hheld : graphId ∈ head.document.graphs.map GraphDefinition.id)
    (hupdate : ∀ graph ∈ head.document.graphs, graph.id = graphId → update graph = some (change
      graph)) (sequence : ℕ) :
    mapGraphDocument head graphId update sequence = some { head with
      document := changed head.document graphId change, collaborationSequence := sequence } := by
  have hmap : head.document.graphs.mapM (fun graph =>
      if graph.id = graphId then update graph else some graph) =
        some (changed head.document graphId change).graphs := by
    refine mapM_some_eq_map ?_
    intro graph hgraph
    split_ifs with hid
    · exact hupdate graph hgraph hid
    · rfl
  unfold mapGraphDocument
  rw [if_neg (not_not.mpr hheld), hmap]
  rfl

theorem Following.addGraph (h : Following drift head state) {document : GraphDocument}
    (hnext : applyProjectCommand casefold destination state.1 state.2
      (.addGraph graphId name document) = .ok next) (sequence : ℕ) :
    ∃ replayed,
      applyRoomCommandToHead head (parsedCommand (.addGraph graphId name document)) sequence =
        some replayed ∧ Following drift replayed next := by
  cases applyProjectCommand_step hnext with
  | addGraph hnew hvalid hrules =>
    refine ⟨{ head with
      document := ⟨head.document.graphs ++ [⟨graphId, name, parsedDocument document, []⟩]⟩
      collaborationSequence := sequence }, ?_, h.name, ?_, ?_, checkProject_ids hrules⟩
    · show ite _ _ _ = _
      rw [h.ids_eq, if_neg hnew]
    · exact List.rel_append h.graphs
        (.cons (follows_parsed drift ⟨graphId, name, document, []⟩) .nil)
    · intro graph hgraph
      rcases mem_snoc.mp hgraph with hold | rfl
      · exact h.valid graph hold
      · exact hvalid

section

variable (h : Following drift head state)
include h

theorem Following.removeGraph
    (hnext : applyProjectCommand casefold destination state.1 state.2 (.removeGraph graphId) =
      .ok next) (sequence : ℕ) :
    ∃ replayed, applyRoomCommandToHead head (.removeGraph graphId) sequence = some replayed ∧
      Following (drift.after (.removeGraph graphId)) replayed next := by
  cases applyProjectCommand_step hnext with
  | removeGraph hrules =>
    refine ⟨_, rfl, h.name, ?_, ?_, checkProject_ids hrules⟩
    · have hkept : List.Forall₂ (Follows drift)
          (head.document.graphs.filter (fun graph => graph.id ≠ graphId))
          (state.2.graphs.filter (fun graph => graph.id ≠ graphId)) := by
        refine List.rel_filter ?_ h.graphs
        intro replayed graph hfollows
        simp [hfollows.id]
      refine (with_mem hkept).imp ?_
      rintro replayed graph ⟨-, hgraph, hfollows⟩
      have hne : graph.id ≠ graphId := by simpa using (List.mem_filter.mp hgraph).2
      exact hfollows.congr ⟨and_iff_left hne, fun _ => and_iff_left hne, and_iff_left hne⟩
    · intro graph hgraph
      exact h.valid graph (List.mem_filter.mp hgraph).1

theorem Following.renameGraph {expectedName : String}
    (hnext : applyProjectCommand casefold destination state.1 state.2
      (.renameGraph graphId name expectedName) = .ok next) (sequence : ℕ) :
    ∃ replayed,
      applyRoomCommandToHead head (.renameGraph graphId name expectedName) sequence =
        some replayed ∧
      Following (drift.after (.renameGraph graphId name expectedName)) replayed next := by
  cases applyProjectCommand_step hnext with
  | renameGraph _ hchecked hbuilt =>
    simp only [checkedGraphName, bind_ok, require_ok, pure_applied] at hchecked
    obtain ⟨_, -, rfl⟩ := hchecked
    refine ⟨_, rfl, h.change (fun held => { held with name := name })
      (fun held => { held with name := strip name }) (fun _ => rfl) ?_ ?_ hbuilt.graph rfl rfl⟩
    · intro replayed held _ hsame hfollows
      refine ⟨hfollows.id, ?_, hfollows.document, hfollows.generation, hfollows.former⟩
      intro hno
      by_contra hstrip
      exact hno (.inl ⟨hsame, fun heq => hstrip heq.symm⟩)
    · intro id hne
      refine ⟨Iff.rfl, fun _ => Iff.rfl, ?_⟩
      exact ⟨fun hin => (hin.resolve_left (fun hsame => hne hsame.1)).2, fun hin => .inr ⟨hne, hin⟩⟩

variable {nodeId : String}

theorem Following.refreshNode {expectedGeneration : ℕ}
    (hnext : applyProjectCommand casefold destination state.1 state.2
      (.refreshNode graphId nodeId expectedGeneration) = .ok next) (sequence : ℕ) :
    ∃ replayed,
      applyRoomCommandToHead head (parsedCommand (.refreshNode graphId nodeId expectedGeneration))
        sequence = some replayed ∧
      Following (drift.after (.refreshNode graphId nodeId expectedGeneration)) replayed next := by
  cases applyProjectCommand_step hnext with
  | @refreshNode _ _ graph _ hgraph _ _ hbuilt =>
    obtain ⟨hmem, hid⟩ := mem_graphs_of_getGraph hgraph
    have hsameDocument : head.document = changed head.document graphId (fun held => held) := by
      simp [changed]
    refine ⟨_, rfl, h.change (fun held => held) (refreshedTo nodeId (generationOf graph nodeId + 1))
      (fun _ => rfl) ?_ ?_ hbuilt.graph rfl hsameDocument⟩
    · intro replayed held hheld hsame hfollows
      obtain rfl : held = graph := List.inj_on_of_nodup_map h.distinct hheld hmem
        (hsame.trans hid.symm)
      have hraised :
        ∀ other, generationOf (refreshedTo nodeId (generationOf held nodeId + 1) held) other =
          if other = nodeId then generationOf held nodeId + 1 else generationOf held other := by
        intro other
        simp only [generationOf, refreshedTo, Dict.get?_set]
        split_ifs <;> rfl
      refine ⟨hfollows.id, hfollows.name, hfollows.document, ?_, ?_⟩
      · intro other hno
        rw [hraised, if_neg (fun heq => hno (.inr ⟨hsame, heq⟩))]
        exact hfollows.generation other (fun hin => hno (.inl hin))
      · intro other
        obtain ⟨generation, hle, hgeneration⟩ := hfollows.former other
        refine ⟨generation, ?_, hgeneration⟩
        rw [hraised]
        split_ifs with hother
        · subst hother
          exact hle.trans (Nat.le_succ _)
        · exact hle
    · intro id hne
      refine ⟨Iff.rfl, fun _ => ?_, Iff.rfl⟩
      exact ⟨fun hin => hin.resolve_right (fun hsame => hne hsame.1), .inl⟩

theorem Following.addCallNode {calleeGraphId : String} {position : GraphPoint}
    (hnext : applyProjectCommand casefold destination state.1 state.2
      (.addCallNode graphId nodeId calleeGraphId position) = .ok next) (sequence : ℕ) :
    ∃ replayed,
      applyRoomCommandToHead head (.addCallNode graphId nodeId calleeGraphId position) sequence =
        some replayed ∧
      Following
        (drift.after (.addCallNode graphId nodeId calleeGraphId position)) replayed next := by
  cases applyProjectCommand_step hnext with
  | @addCallNode _ _ _ _ graph _ hgraph hdocument hbuilt =>
    obtain ⟨-, rfl⟩ := buildDocument_ok.mp hdocument
    obtain ⟨hmem, hid⟩ := mem_graphs_of_getGraph hgraph
    have hheld : graphId ∈ state.2.graphs.map GraphDefinition.id :=
      List.mem_map.mpr ⟨graph, hmem, hid⟩
    refine ⟨_, mapGraphDocument_eq (by rwa [h.ids_eq]) (fun _ _ _ => rfl) sequence,
      h.change _ _ (withDocument_id _) ?_ ?_ hbuilt.graph rfl rfl⟩
    · intro replayed held hheld hsame hfollows
      obtain rfl : held = graph := List.inj_on_of_nodup_map h.distinct hheld hmem
        (hsame.trans hid.symm)
      rw [withDocument_addNode (h.valid held hmem)]
      exact ⟨hfollows.id, hfollows.name, fun hno => absurd (.inr hsame) hno, hfollows.generation,
        hfollows.former⟩
    · intro id hne
      refine ⟨?_, fun _ => Iff.rfl, Iff.rfl⟩
      exact ⟨fun hin => hin.resolve_right hne, .inl⟩

end

end Steps

section Batches

variable {casefold : String → String} {destination : String → Option String} {head : ProjectHead}
  {last : String × ProjectDocument} {commands : List ProjectCommand} {replayed : ProjectHead}
  {sequence : ℕ} {command : ProjectCommand}

/-- A command accepted by the server is replayed, and the two sides stay
beside each other. -/
theorem Following.step (h : Following drift head state) (hlevel : ProjectLevel command)
    (hnext : applyProjectCommand casefold destination state.1 state.2 command = .ok next)
    (sequence : ℕ) :
    ∃ replayed, applyRoomCommandToHead head (parsedCommand command) sequence = some replayed ∧
      Following (drift.after command) replayed next := by
  cases command with
  | renameProject name expectedName =>
    cases applyProjectCommand_step hnext
    exact ⟨_, rfl, rfl, h.graphs, h.valid, h.distinct⟩
  | addGraph graphId name document => exact h.addGraph hnext sequence
  | renameGraph graphId name expectedName => exact h.renameGraph hnext sequence
  | removeGraph graphId => exact h.removeGraph hnext sequence
  | refreshNode graphId nodeId expectedGeneration => exact h.refreshNode hnext sequence
  | addCallNode graphId nodeId calleeGraphId position => exact h.addCallNode hnext sequence
  | inGraph graphId body => exact hlevel.elim

theorem Following.run (h : Following drift head state)
    (hlevel : ∀ command ∈ commands, ProjectLevel command)
    (hruns : Applies casefold destination commands state last) (sequence : ℕ) :
    ∃ replayed, applyRoomCommandsToHead head (commands.map parsedCommand) sequence = some replayed ∧
      Following (commands.foldl Drift.after drift) replayed last := by
  induction hruns generalizing head drift with
  | nil => exact ⟨head, rfl, h⟩
  | cons hnext hrest ih =>
    rename_i command rest state next last
    obtain ⟨middle, hmiddle, hfollowing⟩ :=
      h.step (hlevel command (List.mem_cons_self ..)) hnext sequence
    obtain ⟨replayed, hreplayed, hlast⟩ :=
      ih hfollowing (fun other hother => hlevel other (List.mem_cons_of_mem _ hother))
    refine ⟨replayed, ?_, hlast⟩
    unfold applyRoomCommandsToHead at hreplayed ⊢
    rw [List.map_cons, List.foldlM_cons, hmiddle]
    exact hreplayed

/-- The head as the browser holds it follows the server's. -/
theorem following_parsed (hvalid : head.document.Valid casefold) :
    Following .none (parsedHead head) (head.name, head.document) where
  name := rfl
  graphs := by
    refine List.forall₂_map_left_iff.mpr ?_
    exact List.forall₂_same.mpr (fun graph _ => follows_parsed .none graph)
  valid := hvalid.graphs
  distinct := hvalid.wellFormed.ids

theorem mapGraphDocument_rest (h : mapGraphDocument head graphId update sequence = some replayed) :
    replayed = { head with
      name := replayed.name, document := replayed.document,
        collaborationSequence := sequence } := by
  unfold mapGraphDocument at h
  split_ifs at h
  · obtain ⟨graphs, -, hgraphs⟩ := Option.bind_eq_some_iff.mp h
    cases hgraphs
    rfl
  · cases h
    rfl

/-- Beside the name and the document a replay sets the sequence only. -/
theorem applyRoomCommandToHead_rest
    (h : applyRoomCommandToHead head command sequence = some replayed) :
    replayed = { head with
      name := replayed.name, document := replayed.document,
        collaborationSequence := sequence } := by
  cases command with
  | renameProject name expectedName | renameGraph graphId name expectedName | removeGraph graphId
  | refreshNode graphId nodeId expectedGeneration =>
    cases h
    rfl
  | addGraph graphId name document =>
    simp only [applyRoomCommandToHead] at h
    split_ifs at h
    · cases h
      rfl
    · cases h
      rfl
  | addCallNode graphId nodeId calleeGraphId position | inGraph graphId body =>
    exact mapGraphDocument_rest h

theorem applyRoomCommandsToHead_rest (hne : commands ≠ [])
    (h : applyRoomCommandsToHead head commands sequence = some replayed) :
    replayed = { head with
      name := replayed.name, document := replayed.document,
        collaborationSequence := sequence } := by
  induction commands generalizing head with
  | nil => exact absurd rfl hne
  | cons command rest ih =>
    unfold applyRoomCommandsToHead at h ih
    rw [List.foldlM_cons] at h
    obtain ⟨middle, hmiddle, hrest⟩ := Option.bind_eq_some_iff.mp h
    have hfirst := applyRoomCommandToHead_rest hmiddle
    by_cases hlast : rest = []
    · subst hlast
      cases hrest
      exact hfirst
    · rw [ih hlast hrest, hfirst]

/-- An accepted batch about the Project as a whole is replayed to the same name
and the same Graphs in the same order, as the browser reads them. Refreshing a
node raises no generation in the replayed head; the drift of the batch says
where else it may differ. -/
theorem project_replay_follows (hvalid : head.document.Valid casefold)
    {commands : List ProjectCommand}
    (hlevel : ∀ command ∈ commands, ProjectLevel command)
    (h : applyProjectCommands casefold destination head.name head.document commands = .ok last)
    (sequence : ℕ) :
    ∃ replayed,
      applyRoomCommandsToHead (parsedHead head) (commands.map parsedCommand) sequence =
        some replayed ∧
      replayed.collaborationSequence = sequence ∧ replayed.name = last.1 ∧
      List.Forall₂ (Follows (driftOf commands)) replayed.document.graphs last.2.graphs := by
  obtain ⟨hne, hruns⟩ := applyProjectCommands_ok.mp h
  obtain ⟨replayed, hreplayed, hfollowing⟩ := (following_parsed hvalid).run hlevel hruns sequence
  refine ⟨replayed, hreplayed, ?_, hfollowing.name, hfollowing.graphs⟩
  rw [applyRoomCommandsToHead_rest (by simpa using hne) hreplayed]

def draftHead (generations : Dict String ℕ) : ProjectHead :=
  ⟨"room", 4, "Draft", RefreshHistory.loadProject generations, 0, 0⟩

theorem parsedHead_draft : parsedHead (draftHead []) = draftHead [] := by
  have hversion : parsedNat 1 = 1 := parsedNat_of_lt (by norm_num)
  simp [parsedHead, draftHead, RefreshHistory.loadProject, RefreshHistory.loadGraph, limitedGraph,
    parsedGraph, parsedDocument, parsedNode, parsedPresentation, CanonicalJson.parsedJsonMembers,
    Dict.mapValues, hversion]

/-- A refresh is replayed to the same Graph at its former generation. -/
theorem refresh_followed :
    (draftHead []).document.Valid id ∧
      ∃ replayed,
        applyRoomCommandsToHead (parsedHead (draftHead []))
          ([ProjectCommand.refreshNode "main" "load" 0].map parsedCommand) 5 = some replayed ∧
        replayed.collaborationSequence = 5 ∧ replayed.name = "Draft" ∧
        List.Forall₂ (Follows (driftOf [.refreshNode "main" "load" 0])) replayed.document.graphs
          (RefreshHistory.loadProject [("load", 1)]).graphs := by
  have hvalid : (draftHead []).document.Valid id :=
    (RefreshHistory.loadProject_ok (Or.inl rfl)).valid
  have haccepted : applyProjectCommands id knownDestination (draftHead []).name
    (draftHead []).document
      [.refreshNode "main" "load" 0] = .ok ("Draft", RefreshHistory.loadProject [("load", 1)]) :=
    applyProjectCommands_ok.mpr ⟨by simp, .cons RefreshHistory.refresh_accepted .nil⟩
  exact ⟨hvalid, project_replay_follows hvalid (by simp [ProjectLevel]) haccepted 5⟩

/-- The server raises the generation of the refreshed node; the replayed head
does not. -/
theorem refresh_not_replayed :
    (draftHead []).document.Valid id ∧ ProjectLevel (.refreshNode "main" "load" 0) ∧
      applyProjectCommands id knownDestination (draftHead []).name (draftHead []).document
        [.refreshNode "main" "load" 0] = .ok ("Draft", RefreshHistory.loadProject [("load", 1)]) ∧
      applyRoomCommandsToHead (parsedHead (draftHead []))
          ([ProjectCommand.refreshNode "main" "load" 0].map parsedCommand) 5 ≠
        some { draftHead [("load", 1)] with collaborationSequence := 5 } := by
  refine ⟨(RefreshHistory.loadProject_ok (Or.inl rfl)).valid, trivial, ?_, ?_⟩
  · exact applyProjectCommands_ok.mpr ⟨by simp, .cons RefreshHistory.refresh_accepted .nil⟩
  · intro hsame
    have hreplayed : applyRoomCommandsToHead (draftHead [])
        ([ProjectCommand.refreshNode "main" "load" 0].map parsedCommand) 5 =
          some { draftHead [] with collaborationSequence := 5 } := rfl
    rw [parsedHead_draft, hreplayed] at hsame
    have hgenerations := congrArg (fun head : Option ProjectHead =>
      head.map (fun held => held.document.graphs.map GraphDefinition.refreshGenerations)) hsame
    simp [draftHead, RefreshHistory.loadProject, RefreshHistory.loadGraph] at hgenerations

end Batches

end Grafy.RoomBridge
