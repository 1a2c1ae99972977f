import Grafy.Commutation
import Grafy.OutboxAccounting

/-!
What a submission drops. A batch that replaces one body of one Graph as a whole
makes an earlier replacement of that body worthless: where both can be applied
in order, the later one alone leaves the same Project. Of a replaced document
that holds only while the later document brings no refreshed node back that the
earlier one leaves out. The outbox compares the kind of the body and not the
Graph, so it also drops what another Graph was to be saved as.
-/
namespace Grafy.CommandOutbox

open Commands Commutation DocumentRules GraphDocuments Loops Project

variable {head : Head}

section Replacements

variable {casefold : String → String} {destination : String → Option String} {final : Head}
  {graphId : String} {second : GraphCommand} {body : String × SnapshotKind}

/-- The Graph and the body of it that a batch replaces as a whole. -/
def replacedBody : List ProjectCommand → Option (String × SnapshotKind)
  | [.inGraph graphId (.replaceDocument _)] => some (graphId, .document)
  | [.inGraph graphId (.replacePresentation _)] => some (graphId, .presentation)
  | _ => none

theorem replacedBody_kind (commands : List ProjectCommand) :
    (replacedBody commands).map Prod.snd = snapshotCommandKind commands := by
  unfold replacedBody
  split
  · rfl
  · rfl
  · rename_i hdocument hpresentation
    unfold snapshotCommandKind
    split
    · exact absurd rfl (hdocument _ _)
    · exact absurd rfl (hpresentation _ _)
    · rfl

/-- The heads that two batches lead to, the one after the other. -/
def applyBoth (casefold : String → String) (destination : String → Option String) (head : Head)
    (first second : List ProjectCommand) : Except BatchError Head := do
  let between ← applyProjectCommands casefold destination head.1 head.2 first
  applyProjectCommands casefold destination between.1 between.2 second

/-- The second batch replaces what the first does, so that the first need not be
applied. -/
structure Covers (casefold : String → String) (destination : String → Option String) (head : Head)
    (first second : List ProjectCommand) : Prop where
  sameBody : ∃ body, replacedBody first = some body ∧ replacedBody second = some body
  sameProject : ∀ final, applyBoth casefold destination head first second = .ok final →
    applyProjectCommands casefold destination head.1 head.2 second = .ok final

/-- The second document brings no refreshed node of the Graph back that the
first one leaves out. -/
def RestoresNone (project : ProjectDocument) : List ProjectCommand → List ProjectCommand → Prop
  | [.inGraph graphId (.replaceDocument first)], [.inGraph _ (.replaceDocument second)] =>
    ∀ graph ∈ project.graphs, graph.id = graphId → ∀ nodeId ∈ graph.refreshGenerations.keys,
      nodeId ∈ nodeIds second → nodeId ∈ nodeIds first
  | _, _ => True

theorem applyProjectCommands_one {command : ProjectCommand} :
    applyProjectCommands casefold destination head.1 head.2 [command] = .ok final ↔
      applyProjectCommand casefold destination head.1 head.2 command = .ok final := by
  rw [applyProjectCommands_ok]
  constructor
  · rintro ⟨-, happlies⟩
    obtain ⟨_, hfirst, hnil⟩ := Applies.cons_iff.mp happlies
    cases hnil
    exact hfirst
  · intro h
    exact ⟨by simp, Applies.cons h .nil⟩

theorem applyBoth_one {first second : ProjectCommand} :
    applyBoth casefold destination head [first] [second] = .ok final ↔
      ∃ between : Head, applyProjectCommand casefold destination head.1 head.2 first = .ok between ∧
        applyProjectCommand casefold destination between.1 between.2 second = .ok final := by
  unfold applyBoth
  rw [bind_ok]
  simp only [applyProjectCommands_one]

/-- A command in a Graph is accepted with the document it makes. -/
theorem inGraph_ok_iff {next : Head} {command : GraphCommand} :
    applyProjectCommand casefold destination head.1 head.2 (.inGraph graphId command) = .ok next ↔
      ∃ graph document, head.2.getGraph graphId = some graph ∧
        applyGraphCommand destination graph.document command = .ok document ∧
        (∀ held ∈ head.2.graphs, held.id = graphId →
          validateGraph (withDocument document held) = .ok ()) ∧
        checkProject casefold (changed head.2 graphId (withDocument document)).graphs = .ok () ∧
        next = (head.1, changed head.2 graphId (withDocument document)) := by
  constructor
  · intro h
    cases applyProjectCommand_step h with
    | inGraph hgraph hdocument hbuilt =>
      exact ⟨_, _, hgraph, hdocument, hbuilt.graph, hbuilt.project, rfl⟩
  · rintro ⟨graph, document, hgraph, hdocument, hrules, hproject, rfl⟩
    simp only [applyProjectCommand, bind_ok, pure_applied, graphOrRaise_ok]
    exact ⟨graph, hgraph, document, hdocument, _, changeGraph_ok.mpr ⟨⟨hrules, hproject⟩, rfl⟩, rfl⟩

/-- The generations that both documents keep are those the second one keeps. -/
theorem withDocument_withDocument_iff (graph : GraphDefinition) (first second : GraphDocument) :
    withDocument second (withDocument first graph) = withDocument second graph ↔
      ∀ nodeId ∈ graph.refreshGenerations.keys, nodeId ∈ nodeIds second →
        nodeId ∈ nodeIds first := by
  unfold withDocument
  simp only [GraphDefinition.mk.injEq, true_and, List.filter_filter]
  constructor
  · intro heq nodeId hnodeId hsecond
    obtain ⟨entry, hentry, rfl⟩ := List.mem_map.mp hnodeId
    have hkept : entry ∈ graph.refreshGenerations.filter (fun entry => entry.1 ∈ nodeIds second) :=
      List.mem_filter.mpr ⟨hentry, decide_eq_true hsecond⟩
    rw [← heq] at hkept
    simp only [List.mem_filter, Bool.and_eq_true, decide_eq_true_eq] at hkept
    exact hkept.2.2
  · intro hrestores
    apply List.filter_congr
    intro entry hentry
    have hfirst := hrestores entry.1 (List.mem_map_of_mem hentry)
    by_cases hsecond : entry.1 ∈ nodeIds second
    · simp [hsecond, hfirst hsecond]
    · simp [hsecond]

theorem changed_twice_iff (project : ProjectDocument) (graphId : String)
    (first second : GraphDocument) :
    changed (changed project graphId (withDocument first)) graphId (withDocument second) =
        changed project graphId (withDocument second) ↔
      ∀ graph ∈ project.graphs, graph.id = graphId → ∀ nodeId ∈ graph.refreshGenerations.keys,
        nodeId ∈ nodeIds second → nodeId ∈ nodeIds first := by
  rw [changed_changed project graphId _ _ (withDocument_id first)]
  unfold changed
  rw [ProjectDocument.mk.injEq, List.map_inj_left]
  refine forall₂_congr fun graph _ => ?_
  rw [← withDocument_withDocument_iff]
  by_cases hid : graph.id = graphId <;> simp [hid]

/-- Two documents one Graph is given in order. The second alone is accepted as
well, and it leaves the same Project when the first costs no generation. -/
theorem changed_second {project : ProjectDocument} {first second : GraphDocument}
    (hrules : ∀ held ∈ (changed project graphId (withDocument first)).graphs, held.id = graphId →
      validateGraph (withDocument second held) = .ok ())
    (hrestores : ∀ graph ∈ project.graphs, graph.id = graphId → ∀ nodeId ∈
      graph.refreshGenerations.keys, nodeId ∈ nodeIds second → nodeId ∈ nodeIds first) :
    ∀ held ∈ project.graphs, held.id = graphId →
      validateGraph (withDocument second held) = .ok () := by
  intro held hheld hid
  rw [← (withDocument_withDocument_iff held first second).mpr (hrestores held hheld hid)]
  refine hrules _ (List.mem_map.mpr ⟨held, hheld, ?_⟩) hid
  rw [if_pos hid]

/-- The first batch goes into a Graph and the second into what has become of it. -/
theorem applyBoth_inGraph {first : GraphCommand} :
    applyBoth casefold destination head [.inGraph graphId first] [.inGraph graphId second] =
        .ok final ↔
      ∃ graph document document', head.2.getGraph graphId = some graph ∧
        applyGraphCommand destination graph.document first = .ok document ∧
        applyGraphCommand destination document second = .ok document' ∧
        (∀ held ∈ head.2.graphs, held.id = graphId →
          validateGraph (withDocument document held) = .ok ()) ∧
        checkProject casefold (changed head.2 graphId (withDocument document)).graphs = .ok () ∧
        (∀ held ∈ (changed head.2 graphId (withDocument document)).graphs, held.id = graphId →
          validateGraph (withDocument document' held) = .ok ()) ∧
        checkProject casefold (changed (changed head.2 graphId (withDocument document)) graphId
          (withDocument document')).graphs = .ok () ∧
        final = (head.1, changed (changed head.2 graphId (withDocument document)) graphId
          (withDocument document')) := by
  rw [applyBoth_one]
  constructor
  · rintro ⟨between, hfirst, hsecond⟩
    obtain ⟨graph, document, hgraph, hdocument, hrules, hproject, rfl⟩ := inGraph_ok_iff.mp hfirst
    obtain ⟨graph', document', hgraph', hdocument', hrules', hproject', rfl⟩ :=
      inGraph_ok_iff.mp hsecond
    rw [getGraph_changed hgraph _ (withDocument_id document)] at hgraph'
    cases hgraph'
    exact ⟨graph, document, document', hgraph, hdocument, hdocument', hrules, hproject, hrules',
      hproject', rfl⟩
  · rintro ⟨graph, document, document', hgraph, hdocument, hdocument', hrules, hproject, hrules',
      hproject', rfl⟩
    refine ⟨_, inGraph_ok_iff.mpr ⟨graph, document, hgraph, hdocument, hrules, hproject, rfl⟩, ?_⟩
    exact inGraph_ok_iff.mpr ⟨withDocument document graph, document',
      getGraph_changed hgraph _ (fun _ => rfl), hdocument', hrules', hproject', rfl⟩

/-- The second batch alone does the same when it makes the same document and
the first one costs no generation that the second would keep. -/
theorem second_alone {graph : GraphDefinition} {document document' : GraphDocument}
    (hgraph : head.2.getGraph graphId = some graph)
    (hsecond : applyGraphCommand destination graph.document second = .ok document')
    (hrules : ∀ held ∈ (changed head.2 graphId (withDocument document)).graphs, held.id = graphId →
      validateGraph (withDocument document' held) = .ok ())
    (hproject : checkProject casefold (changed (changed head.2 graphId (withDocument document))
      graphId (withDocument document')).graphs = .ok ())
    (hfinal : final = (head.1, changed (changed head.2 graphId (withDocument document)) graphId
      (withDocument document')))
    (hrestores : ∀ graph ∈ head.2.graphs, graph.id = graphId → ∀ nodeId ∈
      graph.refreshGenerations.keys, nodeId ∈ nodeIds document' → nodeId ∈ nodeIds document) :
    applyProjectCommands casefold destination head.1 head.2
      [.inGraph graphId second] = .ok final := by
  rw [(changed_twice_iff head.2 graphId document document').mpr hrestores] at hproject hfinal
  rw [applyProjectCommands_one, inGraph_ok_iff]
  exact ⟨graph, document', hgraph, hsecond, changed_second hrules hrestores, hproject, hfinal⟩

/-- A later document makes an earlier one worthless just when it restores none. -/
theorem document_covers_iff (head : Head) (graphId : String) (first second : GraphDocument) :
    Covers casefold destination head [.inGraph graphId (.replaceDocument first)]
        [.inGraph graphId (.replaceDocument second)] ↔
      ((∃ final, applyBoth casefold destination head [.inGraph graphId (.replaceDocument first)]
          [.inGraph graphId (.replaceDocument second)] = .ok final) →
        RestoresNone head.2 [.inGraph graphId (.replaceDocument first)]
          [.inGraph graphId (.replaceDocument second)]) := by
  constructor
  · rintro hcovers ⟨final, hboth⟩
    have halone := hcovers.sameProject final hboth
    obtain ⟨graph, _, _, hgraph, ⟨⟩, ⟨⟩, -, -, -, -, rfl⟩ := applyBoth_inGraph.mp hboth
    rw [applyProjectCommands_one, inGraph_ok_iff] at halone
    obtain ⟨_, _, -, ⟨⟩, -, -, heq⟩ := halone
    exact (changed_twice_iff head.2 graphId first second).mp (Prod.mk.inj heq).2
  · intro hrestores
    refine ⟨⟨(graphId, .document), rfl, rfl⟩, fun final hboth => ?_⟩
    have hnone := hrestores ⟨final, hboth⟩
    obtain ⟨graph, _, _, hgraph, ⟨⟩, ⟨⟩, -, -, hrules, hproject, hfinal⟩ :=
      applyBoth_inGraph.mp hboth
    exact second_alone hgraph rfl hrules hproject hfinal hnone

/-- A later presentation makes an earlier one worthless. -/
theorem presentation_covers (head : Head) (graphId : String)
    (first second : GraphPresentationDocument) :
    Covers casefold destination head [.inGraph graphId (.replacePresentation first)]
      [.inGraph graphId (.replacePresentation second)] := by
  refine ⟨⟨(graphId, .presentation), rfl, rfl⟩, fun final hboth => ?_⟩
  obtain ⟨graph, document, document', hgraph, hfirst, hsecond, -, -, hrules, hproject, hfinal⟩ :=
    applyBoth_inGraph.mp hboth
  obtain ⟨-, rfl⟩ := buildDocument_ok.mp hfirst
  obtain ⟨hstructure, rfl⟩ := buildDocument_ok.mp hsecond
  -- the nodes are those of the Graph, whichever presentation it has
  exact second_alone hgraph (buildDocument_ok.mpr ⟨hstructure, rfl⟩) hrules hproject hfinal
    (fun _ _ _ _ _ hnode => hnode)

theorem replacedBody_some {commands : List ProjectCommand} (h : replacedBody commands = some body) :
    (∃ graphId document, body = (graphId, .document) ∧
        commands = [.inGraph graphId (.replaceDocument document)]) ∨
      ∃ graphId presentation, body = (graphId, .presentation) ∧
        commands = [.inGraph graphId (.replacePresentation presentation)] := by
  unfold replacedBody at h
  split at h
  · exact Or.inl ⟨_, _, (Option.some.inj h).symm, rfl⟩
  · exact Or.inr ⟨_, _, (Option.some.inj h).symm, rfl⟩
  · simp at h

/-- Of two replacements of one kind, the later covers the earlier just when it
is of the same Graph and restores none. -/
theorem covers_iff {first second : List ProjectCommand} {body' : String × SnapshotKind}
    (hfirst : replacedBody first = some body) (hsecond : replacedBody second = some body')
    (hkind : body.2 = body'.2) :
    Covers casefold destination head first second ↔ body.1 = body'.1 ∧
      ((∃ final, applyBoth casefold destination head first second = .ok final) →
        RestoresNone head.2 first second) := by
  by_cases hgraph : body.1 = body'.1
  · simp only [hgraph, true_and]
    rcases replacedBody_some hfirst with ⟨graphId, document, rfl, rfl⟩ |
      ⟨graphId, presentation, rfl, rfl⟩
    · rcases replacedBody_some hsecond with ⟨_, document', rfl, rfl⟩ | ⟨_, _, rfl, rfl⟩
      · obtain rfl := hgraph
        exact document_covers_iff head graphId document document'
      · cases hkind
    · rcases replacedBody_some hsecond with ⟨_, _, rfl, rfl⟩ | ⟨_, presentation', rfl, rfl⟩
      · cases hkind
      · obtain rfl := hgraph
        exact iff_of_true (presentation_covers head graphId presentation presentation')
          (fun _ => trivial)
  · refine iff_of_false ?_ (fun h => hgraph h.1)
    rintro ⟨⟨_, hfirst', hsecond'⟩, -⟩
    rw [hfirst] at hfirst'
    rw [hsecond, ← hfirst'] at hsecond'
    exact hgraph (congrArg Prod.fst (Option.some.inj hsecond')).symm

end Replacements

section Superseding

variable {head : Option HeadPointer} {canSend : Bool} {commandId : String}
  {commands : List ProjectCommand} {outbox : Outbox} {item : QueuedCommand} {batch : ℕ}
  {error : CommandError}

/-- The queued batches a submission drops. -/
def Stale (commands : List ProjectCommand) (item : QueuedCommand) : Prop :=
  item.sent = false ∧ ∃ kind, snapshotCommandKind item.commands = some kind ∧
    snapshotCommandKind commands = some kind

theorem superseded_eq (h : superseded item = .settle batch (.rejected error)) :
    item.batch = batch ∧ item.commandId = error.commandId ∧ error.errorCode = "superseded" := by
  obtain ⟨rfl, hrejected⟩ := Effect.settle.inj h
  obtain rfl := Settlement.rejected.inj hrejected
  exact ⟨rfl, rfl, rfl⟩

theorem settle_notMem_drainQueue (batch : ℕ) (settlement : Settlement) :
    .settle batch settlement ∉ (drainQueue head canSend outbox).2 := by
  unfold drainQueue
  split_ifs
  · simp
  · split <;> simp

theorem mem_supersede {effect : Effect} :
    effect ∈ (supersedeQueuedSnapshotCommand outbox commands).2 ↔
      ∃ item ∈ outbox.queue, Stale commands item ∧ superseded item = effect := by
  unfold supersedeQueuedSnapshotCommand
  cases hkind : snapshotCommandKind commands with
  | none => simp [Stale, hkind]
  | some kind => simp [Stale, hkind, and_assoc]

/-- A submission rejects the stale batches as superseded and no others. -/
theorem submit_superseded :
    (.settle batch (.rejected error) ∈ (submit head canSend commandId commands outbox).2 ∧
        error.errorCode = "superseded") ↔
      ∃ item ∈ outbox.queue, Stale commands item ∧
        superseded item = .settle batch (.rejected error) := by
  have hkept : .settle batch (.rejected error) ∈
        (submit head canSend commandId commands outbox).2 ∧ error.errorCode = "superseded" ↔
      .settle batch (.rejected error) ∈ (supersedeQueuedSnapshotCommand outbox commands).2 ∧
        error.errorCode = "superseded" := by
    refine and_congr_left fun hcode => ?_
    unfold submit
    simp only
    split_ifs
    · refine ⟨fun hmem => (List.mem_append.mp hmem).resolve_right ?_, List.mem_append_left _⟩
      rintro hfull
      simp only [List.mem_singleton, Effect.settle.injEq, Settlement.rejected.injEq] at hfull
      simp [hfull.2, queueFull] at hcode
    · exact ⟨fun hmem => (List.mem_append.mp hmem).resolve_right (settle_notMem_drainQueue _ _),
        List.mem_append_left _⟩
  rw [hkept, mem_supersede]
  refine and_iff_left_of_imp ?_
  rintro ⟨item, -, -, heq⟩
  exact (superseded_eq heq).2.2

theorem kept_run (turns : List Turn) : Kept (turns.foldl Ledger.take .start) :=
  List.foldlRecOn turns Ledger.take Kept.start (fun _ h turn _ => (take_moves turn).kept h)

/-- A batch is in the queue once. -/
theorem Kept.queue_inj {ledger : Ledger} (h : Kept ledger) {item' : QueuedCommand}
    (hitem : item ∈ ledger.outbox.queue) (hitem' : item' ∈ ledger.outbox.queue)
    (hbatch : item.batch = item'.batch) : item = item' := by
  have hnodup : (ledger.outbox.held.map QueuedCommand.batch).Nodup :=
    h.sorted.imp (fun hlt => Nat.ne_of_lt hlt)
  exact List.inj_on_of_nodup_map hnodup (List.mem_append_right _ hitem)
    (List.mem_append_right _ hitem') hbatch

theorem stale_iff : Stale commands item ↔ item.sent = false ∧
    ∃ body body', replacedBody item.commands = some body ∧ replacedBody commands = some body' ∧
      body.2 = body'.2 := by
  unfold Stale
  refine and_congr_right fun _ => ?_
  simp only [← replacedBody_kind, Option.map_eq_some_iff]
  constructor
  · rintro ⟨_, ⟨body, hbody, rfl⟩, body', hbody', hkind⟩
    exact ⟨body, body', hbody, hbody', hkind.symm⟩
  · rintro ⟨body, body', hbody, hbody', hkind⟩
    exact ⟨body.2, ⟨body, hbody, rfl⟩, body', hbody', hkind.symm⟩

variable (casefold : String → String) (destination : String → Option String) (project : Head)

/-- Whatever is rejected as superseded was never sent and is covered by the new
batch. -/
def SupersedesCovered (outbox : Outbox) (commands : List ProjectCommand) (effects : List Effect) :
    Prop :=
  ∀ batch error, .settle batch (.rejected error) ∈ effects → error.errorCode = "superseded" →
    ∃ item ∈ outbox.queue, item.batch = batch ∧ item.commandId = error.commandId ∧
      item.sent = false ∧ Covers casefold destination project item.commands commands

/-- Every queued replacement of the kind submitted that was never sent is of the
same Graph and, where both can be applied in order, loses no generation. -/
def QueuedAlike (outbox : Outbox) (commands : List ProjectCommand) : Prop :=
  ∀ item ∈ outbox.queue, item.sent = false → ∀ body body', replacedBody item.commands = some body →
    replacedBody commands = some body' → body.2 = body'.2 → body.1 = body'.1 ∧
      ((∃ final, applyBoth casefold destination project item.commands commands = .ok final) →
        RestoresNone project.2 item.commands commands)

/-- In every state a run reaches, a submission drops covered replacements only
just when every queued replacement of its kind is one that it covers. -/
theorem supersedes_covered_iff (turns : List Turn) (head : Option HeadPointer) (canSend : Bool)
    (commandId : String) (commands : List ProjectCommand) :
    SupersedesCovered casefold destination project (turns.foldl Ledger.take .start).outbox commands
        (submit head canSend commandId commands (turns.foldl Ledger.take .start).outbox).2 ↔
      QueuedAlike casefold destination project
        (turns.foldl Ledger.take .start).outbox commands := by
  have hkept := kept_run turns
  constructor
  · intro hcovered item hitem hsent body body' hbody hbody' hkind
    have hstale := stale_iff.mpr ⟨hsent, body, body', hbody, hbody', hkind⟩
    obtain ⟨hmem, hcode⟩ := submit_superseded.mpr ⟨item, hitem, hstale, rfl⟩
    obtain ⟨item', hitem', hbatch, -, -, hcovers⟩ := hcovered _ _ hmem hcode
    obtain rfl := hkept.queue_inj hitem' hitem hbatch
    exact (covers_iff hbody hbody' hkind).mp hcovers
  · intro halike batch error hmem hcode
    obtain ⟨item, hitem, hstale, heq⟩ := submit_superseded.mp ⟨hmem, hcode⟩
    obtain ⟨hsent, body, body', hbody, hbody', hkind⟩ := stale_iff.mp hstale
    obtain ⟨hbatch, hid, -⟩ := superseded_eq heq
    exact ⟨item, hitem, hbatch, hid, hsent,
      (covers_iff hbody hbody' hkind).mpr (halike item hitem hsent body body' hbody hbody' hkind)⟩

def blankDocument : GraphDocument := ⟨[], [], [], [], ⟨[], [], [], []⟩⟩

/-- A save that is handed in while nothing can be sent. -/
def waitingRun (graphId : String) : List Turn :=
  [⟨none, true, .submit "first" [.inGraph graphId (.replaceDocument blankDocument)]⟩]

/-- A save of one Graph that waits is dropped for the save of another. -/
theorem other_graph_superseded : ¬ SupersedesCovered id some
    ("Draft", ⟨[⟨"left", "Left", blankDocument, []⟩, ⟨"right", "Right", blankDocument, []⟩]⟩)
    ((waitingRun "left").foldl Ledger.take .start).outbox
    [.inGraph "right" (.replaceDocument blankDocument)]
    (submit none true "second" [.inGraph "right" (.replaceDocument blankDocument)]
      ((waitingRun "left").foldl Ledger.take .start).outbox).2 := by
  intro hcovered
  obtain ⟨item, hitem, -, -, -, hcovers⟩ := hcovered 0 ⟨"first", "superseded",
    "A newer snapshot command replaced this queued command."⟩ (by simp [submit, waitingRun,
      Ledger.take, Ledger.write, Call.reply, Ledger.start, Outbox.empty, drainQueue,
      supersedeQueuedSnapshotCommand, snapshotCommandKind, superseded, roomCommandQueueCap]) rfl
  obtain ⟨body, hfirst, hsecond⟩ := hcovers.sameBody
  obtain rfl : item = ⟨0, "first", [.inGraph "left" (.replaceDocument blankDocument)], false, none,
      none, none, none⟩ := List.mem_singleton.mp hitem
  simp only [replacedBody, Option.some.injEq] at hfirst hsecond
  exact absurd (hfirst.trans hsecond.symm) (by decide)

end Superseding

end Grafy.CommandOutbox
