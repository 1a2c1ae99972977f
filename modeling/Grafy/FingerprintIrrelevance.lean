import Grafy.Renaming

/-!
Ids and drawing never enter a fingerprint. Renaming the nodes of every Graph,
the edges and the origins, and moving whatever is only drawn, leaves an
expansion with the renamed instances, and every instance keeps the
fingerprint it had.
-/
namespace Grafy.Renaming

open DocumentRules Expansion Fingerprints GraphDocuments Instances Project Results

section Keys

variable (rename : String → String → String) (project : ProjectDocument)

/-- The call path with every call node renamed in the Graph it stands in. -/
def renamePath : GraphDefinition → List String → List String
  | _, [] => []
  | graph, first :: rest =>
    rename graph.id first ::
      match (nodeNamed graph first).bind (fun node => project.getGraph node.operatorId) with
      | some callee => renamePath callee rest
      | none => rest

/-- The key of the renamed instance. -/
def renameKey (target : GraphDefinition) (key : InstanceKey) : InstanceKey :=
  { key with
    callPath := renamePath rename project target key.callPath
    nodeId := rename key.graphId key.nodeId }

variable {rename project}

theorem renamePath_snoc (hwf : WellFormed project) {start graph : GraphDefinition}
    {path : List String} (hstart : start ∈ project.graphs) (hcalls : Calls project start path graph)
    (id : String) :
    renamePath rename project start (path ++ [id]) =
      renamePath rename project start path ++ [rename graph.id id] := by
  induction path generalizing start with
  | nil =>
    obtain rfl := hcalls.eq_of_nil
    simp only [List.nil_append, renamePath, List.cons.injEq, true_and]
    cases (nodeNamed graph id).bind (fun node => project.getGraph node.operatorId) with
    | none | some callee => rfl
  | cons first rest ih =>
    obtain ⟨node, callee, hnode, -, hid, hcallee, hrest⟩ := hcalls.exists_head
    have hnamed := (nodeNamed_iff hwf hstart).mpr ⟨hnode, hid⟩
    have hmem : callee ∈ project.graphs := List.mem_of_find?_eq_some hcallee
    simp [renamePath, hnamed, hcallee, ih hmem hrest]

end Keys

section Roots

variable {rename : String → String → String} {project project' : ProjectDocument}
  {target target' : GraphDefinition} {projectId : String}

theorem pairing_of_targets (hrenames : ProjectRenames rename project project')
    (hwf : WellFormed project) {graphId : String} (hget : project.getGraph graphId = some target)
    (hget' : project'.getGraph graphId = some target') :
    Pairing rename project project' ⟨target, []⟩ ⟨target', []⟩ := by
  obtain ⟨graph', hgraph', hgraphs⟩ := hrenames.getGraph hget
  cases hget'.symm.trans hgraph'
  exact ⟨hrenames, hwf, hgraphs, List.mem_of_find?_eq_some hget, List.mem_of_find?_eq_some hget'⟩

/-- Facts that say nothing. -/
def blankFacts : FingerprintFacts := ⟨fun _ => "", fun _ => .exact, fun _ => []⟩

/-- Nothing feeds the targets from outside. -/
theorem suppliedAlike_none (R : InstanceKey → InstanceKey → Prop) (visit : Visit)
    (node node' : GraphNode) :
    SuppliedAlike R project project' projectId projectId none none visit node node' :=
  ⟨.nil, .nil, fun _ => rfl⟩

variable (pairing : Pairing rename project project' ⟨target, []⟩ ⟨target', []⟩)
include pairing

variable {visit' visit : Visit}

theorem Matched.renamePath
    (h : Matched rename project project' ⟨target, []⟩ ⟨target', []⟩ visit visit') :
    visit'.callPath = renamePath rename project target visit.callPath := by
  induction h with
  | start => rfl
  | call habove _ _ _ hnode _ _ ih =>
    have hplaced : Placed project target none ⟨target, []⟩ := .root
    have hplaced' : Placed project' target' none ⟨target', []⟩ := .root
    have hcalls := (habove.calls hplaced hplaced').1
    simp only
    rw [renamePath_snoc pairing.wellFormed pairing.known hcalls, ih, hnode.id]

variable {key' key : InstanceKey}

theorem Counterpart.renameKey
    (h : Counterpart rename project project' ⟨target, []⟩ ⟨target', []⟩ projectId projectId key
      key') :
    key' = renameKey rename project target key := by
  obtain ⟨hmatched, hnode, hcall, hnode', hrenames⟩ := h
  have hgraphs := hmatched.graphs pairing.renames pairing.graphs
  simp [Renaming.renameKey, keyAt, hmatched.renamePath pairing, hrenames.id, hgraphs.id]

/-- Every chain of calls of the target has its renamed chain. -/
theorem exists_matched {path : List String} {graph : GraphDefinition}
    (hcalls : Calls project target path graph) :
    ∃ visit', Matched rename project project' ⟨target, []⟩ ⟨target', []⟩ ⟨graph, path⟩ visit' := by
  induction hcalls with
  | here => exact ⟨_, .start⟩
  | call _ hnode hcall hcallee ih =>
    obtain ⟨visit', hmatched⟩ := ih
    have hgraphs := hmatched.graphs pairing.renames pairing.graphs
    obtain ⟨node', hnode', hnoderenames⟩ := Alignment.exists_right hgraphs.nodes hnode
    obtain ⟨callee', hcallee', -⟩ := pairing.renames.getGraph hcallee
    rw [← hnoderenames.operatorId] at hcallee'
    exact ⟨_, hmatched.call hnode hcall hnode' hnoderenames hcallee hcallee'⟩

/-- Every chain of calls of the renamed target is a renamed chain. -/
theorem exists_matched_of_renamed {path' : List String} {graph' : GraphDefinition}
    (hcalls : Calls project' target' path' graph') :
    ∃ visit, Matched rename project project' ⟨target, []⟩ ⟨target', []⟩ visit ⟨graph', path'⟩ := by
  induction hcalls with
  | here => exact ⟨_, .start⟩
  | @call path' above' callee' node' _ hnode' hcall' hcallee' ih =>
    obtain ⟨visit, hmatched⟩ := ih
    have hgraphs := hmatched.graphs pairing.renames pairing.graphs
    obtain ⟨hgraph, -⟩ := hmatched.mem_graphs pairing.known pairing.known'
    obtain ⟨node, hnode, hnoderenames⟩ := Alignment.exists_left hgraphs.nodes hnode'
    have hcall : isCall node := hnoderenames.isCall ▸ hcall'
    obtain ⟨callee, -, hcallee⟩ := exists_callee pairing.wellFormed hgraph hnode hcall
    exact ⟨_, hmatched.call hnode hcall hnode' hnoderenames hcallee hcallee'⟩

theorem exists_counterpart (projectId : String) {caller : Option Site}
    (hplaced : Placed project target caller visit) {node : GraphNode}
    (hnode : node ∈ visit.graph.document.nodes) (hcall : isCall node = false) :
    ∃ key', Counterpart rename project project' ⟨target, []⟩ ⟨target', []⟩ projectId projectId
      (keyAt projectId visit.graph visit.callPath node) key' := by
  obtain ⟨visit', hmatched⟩ := exists_matched pairing hplaced.calls
  have hgraphs := hmatched.graphs pairing.renames pairing.graphs
  obtain ⟨node', hnode', hnoderenames⟩ := Alignment.exists_right hgraphs.nodes hnode
  exact ⟨_, .intro hmatched hnode hcall hnode' hnoderenames⟩

theorem exists_counterpart_of_renamed {caller' : Option Site}
    (hplaced' : Placed project' target' caller' visit') {node' : GraphNode}
    (hnode' : node' ∈ visit'.graph.document.nodes) (hcall' : isCall node' = false) :
    ∃ key, Counterpart rename project project' ⟨target, []⟩ ⟨target', []⟩ projectId projectId
      key (keyAt projectId visit'.graph visit'.callPath node') := by
  obtain ⟨visit, hmatched⟩ := exists_matched_of_renamed pairing hplaced'.calls
  have hgraphs := hmatched.graphs pairing.renames pairing.graphs
  obtain ⟨node, hnode, hnoderenames⟩ := Alignment.exists_left hgraphs.nodes hnode'
  exact ⟨_, .intro hmatched hnode (hnoderenames.isCall.symm.trans hcall') hnode' hnoderenames⟩

/-- Following renamed connections upstream ends where following the original
ones does. -/
theorem Counterpart.acc
    (h : Counterpart rename project project' ⟨target, []⟩ ⟨target', []⟩ projectId projectId key
      key') (hacc : Acc (Reads project target projectId) key) :
    Acc (Reads project' target' projectId) key' := by
  induction hacc generalizing key' with
  | intro key _ ih =>
    refine Acc.intro key' ?_
    rintro source' ⟨caller', visit', node', hplaced', hnode', hcall', rfl, hsource'⟩
    have hroot : Placed project target none ⟨target, []⟩ := .root
    have hroot' : Placed project' target' none ⟨target', []⟩ := .root
    have hblank : SameFacts rename project project' ⟨target, []⟩ ⟨target', []⟩ projectId projectId
        blankFacts blankFacts := fun _ _ _ _ _ _ _ _ _ => ⟨rfl, rfl, rfl⟩
    obtain ⟨c, visit, node, c', v', n', hp, hnode, hcall, rfl, hp', hn', hcn', heq, hagree⟩ :=
      h.agree pairing hroot hroot' hblank (fun _ _ h => h)
        (fun _ _ _ _ _ => suppliedAlike_none _ _ _ _)
    -- the key determines the instance, whichever way its occurrence is given
    obtain ⟨found', stage'⟩ := exists_stage (pairing.renames.wellFormed pairing.wellFormed)
      (getGraph_of_mem (pairing.renames.wellFormed pairing.wellFormed).ids pairing.known')
    have hinst' := get?_draft stage' projectId hplaced' hnode' hcall'
    rw [heq, get?_draft stage' projectId hp' hn' hcn'] at hinst'
    rw [← Option.some.inj hinst'] at hsource'
    obtain ⟨connection', hconnection', rfl⟩ := List.mem_map.mp hsource'
    obtain ⟨connection, hconnection, -, hcounterpart⟩ :=
      Alignment.exists_left hagree.connections hconnection'
    refine ih connection.source ?_ hcounterpart
    exact ⟨c, visit, node, hp, hnode, hcall, rfl, List.mem_map.mpr ⟨connection, hconnection, rfl⟩⟩

end Roots

/-- Facts that are keyed consistently with a renaming. -/
structure KeyedAlike (rename : String → String → String) (project project' : ProjectDocument)
    (target : GraphDefinition) (keys : List InstanceKey) (facts facts' : FingerprintFacts) :
    Prop where
  nodes : ∀ graph ∈ project.graphs, ∀ graph' ∈ project'.graphs, graph'.id = graph.id →
    ∀ node ∈ graph.document.nodes, ∀ node' ∈ graph'.document.nodes,
      NodeRenames (rename graph.id) node node' →
      facts.implementationDigest node = facts'.implementationDigest node' ∧
        facts.cachePolicy node = facts'.cachePolicy node'
  secrets : ∀ key ∈ keys, facts.secretRevisions key =
    facts'.secretRevisions (renameKey rename project target key)

/-- A renamed document expands whenever the document does, into exactly the
renamed instances, and each of them has the fingerprint of the instance it
corresponds to. -/
theorem renamed_fingerprints {casefold : String → String} {rename : String → String → String}
    {project project' : ProjectDocument} {graphId projectId : String} {expanded : ExpandedGraph}
    {target : GraphDefinition} {facts facts' : FingerprintFacts} (sha256 : String → Fingerprint)
    (hvalid : project.Valid casefold) (hrenames : ProjectRenames rename project project')
    (htarget : project.getGraph graphId = some target)
    (hexpand : expandGraph project graphId projectId = .ok expanded)
    (hfacts : KeyedAlike rename project project' target expanded.order facts facts') :
    ∃ expanded' fps fps', expandGraph project' graphId projectId = .ok expanded' ∧
      computeFingerprints sha256 expanded facts = .ok fps ∧
      computeFingerprints sha256 expanded' facts' = .ok fps' ∧
      (∀ key', key' ∈ expanded'.order ↔
        ∃ key ∈ expanded.order, key' = renameKey rename project target key) ∧
      ∀ key ∈ expanded.order, ∃ f, fps.get? key = some f ∧
        fps'.get? (renameKey rename project target key) = some f := by
  have hwf := hvalid.wellFormed
  have hwf' := hrenames.wellFormed hwf
  obtain ⟨target₀, htarget₀, hexp⟩ := expandGraph_ok hwf hexpand
  cases htarget.symm.trans htarget₀
  obtain ⟨target', htarget', -⟩ := hrenames.getGraph htarget
  have pairing := pairing_of_targets hrenames hwf htarget htarget'
  have hplaced : Placed project target none ⟨target, []⟩ := .root
  have hplaced' : Placed project' target' none ⟨target', []⟩ := .root
  have hexists : ∃ expanded', expandGraph project' graphId projectId = .ok expanded' := by
    refine expandGraph_exists hwf' htarget' ?_
    intro caller' visit' node' hp' hnode' hcall'
    obtain ⟨key, hcounterpart⟩ := exists_counterpart_of_renamed pairing hp' hnode' hcall'
    obtain ⟨⟨c, visit, node, hp, hnode, hcall, hkey⟩, -⟩ := hcounterpart.placed hplaced hplaced'
    exact hcounterpart.acc pairing (hkey ▸ hexp.acc hp hnode hcall)
  obtain ⟨expanded', hexpand'⟩ := hexists
  obtain ⟨target₁, htarget₁, hexp'⟩ := expandGraph_ok hwf' hexpand'
  cases htarget'.symm.trans htarget₁
  obtain ⟨fps, hfps⟩ := computeFingerprints_exists sha256 facts hexp.topological hexp.closed
  obtain ⟨fps', hfps'⟩ := computeFingerprints_exists sha256 facts' hexp'.topological hexp'.closed
  have hsame : SameFacts rename project project' ⟨target, []⟩ ⟨target', []⟩ projectId projectId
      facts facts' := by
    intro visit visit' node node' hmatched hnode hcall hnode' hnoderenames
    have hgraphs := hmatched.graphs pairing.renames pairing.graphs
    obtain ⟨hgraph, hgraph'⟩ := hmatched.mem_graphs pairing.known pairing.known'
    obtain ⟨himplementation, hpolicy⟩ := hfacts.nodes _ hgraph _ hgraph' hgraphs.id node hnode node'
      hnode' hnoderenames
    refine ⟨himplementation, hpolicy, ?_⟩
    obtain ⟨c, hp⟩ := (hmatched.calls hplaced hplaced').1.placed
    rw [hfacts.secrets _ ((hexp.topological.covers _).mpr ⟨_, hexp.get hp hnode hcall⟩)]
    simp [renameKey, keyAt, hmatched.renamePath pairing, hnoderenames.id, hgraphs.id]
  refine ⟨expanded', fps, fps', hexpand', hfps, hfps', ?_, ?_⟩
  · intro key'
    rw [hexp'.topological.covers key']
    constructor
    · rintro ⟨inst', hinst'⟩
      obtain ⟨caller', visit', node', hp', hnode', hcall', rfl⟩ := hexp'.placed hinst'
      obtain ⟨key, hcounterpart⟩ := exists_counterpart_of_renamed pairing hp' hnode' hcall'
      obtain ⟨⟨c, visit, node, hp, hnode, hcall, rfl⟩, -⟩ := hcounterpart.placed hplaced hplaced'
      exact ⟨_, (hexp.topological.covers _).mpr ⟨_, hexp.get hp hnode hcall⟩,
        hcounterpart.renameKey pairing⟩
    · rintro ⟨key, hkey, rfl⟩
      obtain ⟨inst, hinst⟩ := (hexp.topological.covers key).mp hkey
      obtain ⟨caller, visit, node, hp, hnode, hcall, rfl⟩ := hexp.placed hinst
      obtain ⟨key', hcounterpart⟩ := exists_counterpart pairing projectId hp hnode hcall
      obtain ⟨-, c', visit', node', hp', hnode', hcall', heq⟩ :=
        hcounterpart.placed hplaced hplaced'
      rw [← hcounterpart.renameKey pairing, heq]
      exact ⟨_, hexp'.get hp' hnode' hcall'⟩
  · intro key hkey
    obtain ⟨inst, hinst⟩ := (hexp.topological.covers key).mp hkey
    obtain ⟨caller, visit, node, hp, hnode, hcall, rfl⟩ := hexp.placed hinst
    obtain ⟨key', hcounterpart⟩ := exists_counterpart pairing projectId hp hnode hcall
    rw [← hcounterpart.renameKey pairing]
    exact counterpart_fingerprints pairing hexp hexp' hplaced hplaced' hsame hfps hfps'
      (fun _ _ _ _ _ => suppliedAlike_none _ _ _ _) hcounterpart

section Example

/-- Exchanges two node ids of the calling Graph. -/
def exchange (graph id : String) : String :=
  if graph = "main" then if id = "a" then "b" else if id = "b" then "a" else id else id

theorem callProject_renames :
    ProjectRenames exchange (callProject "a" "b") (callProject "b" "a") := by
  refine .cons ⟨rfl, ?_, ?_, ?_, .nil, ?_⟩ (.cons ⟨rfl, ?_, ?_, ?_, .nil, ?_⟩ .nil)
  · intro a _ b _ h
    simpa [exchange] using h
  · exact .cons ⟨rfl, rfl, rfl, rfl, rfl, rfl, rfl⟩
      (.cons ⟨rfl, rfl, rfl, rfl, rfl, rfl, rfl⟩ .nil)
  · exact .cons ⟨rfl, rfl, rfl, rfl, rfl, rfl, rfl, rfl, rfl⟩ .nil
  · intro node _
    rfl
  · rintro a ha b hb h
    have hids : ∀ x ∈ nodeIds (callProject "a" "b").graphs[1].document, x = "a" ∨ x = "b" := by
      decide
    rcases hids a ha with rfl | rfl <;> rcases hids b hb with rfl | rfl
    · rfl
    · exact absurd h (by decide)
    · exact absurd h (by decide)
    · rfl
  · exact .cons ⟨rfl, rfl, rfl, rfl, rfl, rfl, rfl⟩
      (.cons ⟨rfl, rfl, rfl, rfl, rfl, rfl, rfl⟩ .nil)
  · exact .cons ⟨rfl, rfl, rfl, rfl, rfl, rfl, rfl, rfl, rfl⟩ .nil
  · simp only [List.forall_mem_cons, List.not_mem_nil, IsEmpty.forall_iff, implies_true, and_true]
    exact ⟨rfl, rfl⟩

theorem callProject_fingerprints_kept : ∃ expanded expanded' fps fps',
    expandGraph (callProject "a" "b") "main" "p" = .ok expanded ∧
      expandGraph (callProject "b" "a") "main" "p" = .ok expanded' ∧
      computeFingerprints id expanded plainFacts = .ok fps ∧
      computeFingerprints id expanded' plainFacts = .ok fps' ∧
      ∃ f, fps.get? ⟨"p", "pass", ["b"], "out", none⟩ = some f ∧
        fps'.get? ⟨"p", "pass", ["a"], "out", none⟩ = some f := by
  obtain ⟨expanded, hexpand, horder⟩ := callProject_expands
  have hfacts : ∀ target, KeyedAlike exchange (callProject "a" "b") (callProject "b" "a") target
      expanded.order plainFacts plainFacts := fun _ =>
    ⟨fun _ _ _ _ _ _ _ _ _ h => ⟨h.operatorId.symm, rfl⟩, fun _ _ => rfl⟩
  obtain ⟨expanded', fps, fps', hexpand', hfps, hfps', -, hkept⟩ := renamed_fingerprints id
    callProject_valid callProject_renames rfl hexpand (hfacts _)
  refine ⟨expanded, expanded', fps, fps', hexpand, hexpand', hfps, hfps', ?_⟩
  exact hkept ⟨"p", "pass", ["b"], "out", none⟩ (by simp [horder])

end Example

end Grafy.Renaming
