import Grafy.Inlining

/-!
Acyclic Graphs expand. An instance is addressed by the call nodes on its path
and its own node. A connection changes the address at the ends of one edge of
one Graph: what stands before them is the same on both sides, and what stands
after them does not matter. So if every Graph orders its nodes along its edges,
following connections upstream lowers the address from left to right.
-/
namespace Grafy.AcyclicExpansion

open Expansion GraphDocuments Inlining Instances Project

section Descent

/-- The lists part at a place where the first has the lesser entry. -/
def Diverges (a b : List ℕ) : Prop :=
  ∃ (common left right : List ℕ) (i j : ℕ), i < j ∧ a = common ++ i :: left ∧
    b = common ++ j :: right

/-- Divergence towards lists of bounded length. -/
def Below (longest : ℕ) (a b : List ℕ) : Prop := a.length ≤ longest ∧ Diverges a b

theorem not_diverges_nil (a : List ℕ) : ¬ Diverges a [] := by
  rintro ⟨common, left, right, i, j, -, -, hnil⟩
  simp at hnil

theorem diverges_cons {a : List ℕ} {j : ℕ} {rest : List ℕ} (h : Diverges a (j :: rest)) :
    (∃ i left, i < j ∧ a = i :: left) ∨ ∃ left, a = j :: left ∧ Diverges left rest := by
  obtain ⟨common, left, right, i, k, hlt, rfl, heq⟩ := h
  cases common with
  | nil =>
    cases heq
    exact Or.inl ⟨i, left, hlt, rfl⟩
  | cons first common =>
    obtain ⟨rfl, hrest⟩ := List.cons.inj heq
    exact Or.inr ⟨common ++ i :: left, rfl, common, left, right, i, k, hlt, rfl, hrest⟩

/-- A list of bounded length cannot be lowered for ever. -/
theorem acc_below (longest : ℕ) (a : List ℕ) (h : a.length ≤ longest) : Acc (Below longest) a := by
  -- the induction is on the bound, then on the first entry and on the rest
  induction longest generalizing a with
  | zero =>
    obtain rfl := List.eq_nil_of_length_eq_zero (Nat.le_zero.mp h)
    constructor
    intro b hb
    exact absurd hb.2 (not_diverges_nil b)
  | succ longest ih =>
    cases a with
    | nil =>
      constructor
      intro b hb
      exact absurd hb.2 (not_diverges_nil b)
    | cons j rest =>
      induction j using Nat.strong_induction_on generalizing rest with
      | _ j ihj =>
        have hrest := ih rest (Nat.le_of_succ_le_succ h)
        induction hrest with
        | intro rest _ ihrest =>
          constructor
          intro b hb
          obtain ⟨hlength, hdiverges⟩ := hb
          rcases diverges_cons hdiverges with ⟨i, left, hlt, rfl⟩ | ⟨left, rfl, hleft⟩
          · exact ihj i hlt left hlength
          · exact ihrest left ⟨Nat.le_of_succ_le_succ hlength, hleft⟩ hlength

theorem wellFounded_below (longest : ℕ) : WellFounded (Below longest) := by
  constructor
  intro a
  constructor
  intro b hb
  exact acc_below longest b hb.1

end Descent

variable {graph : GraphDefinition}

section Ranks

/-- An enabled edge of the Graph leads from one node to the other. -/
def Leads (graph : GraphDefinition) (source target : String) : Prop :=
  ∃ edge ∈ graph.document.edges, edge.enabled ∧ edge.fromNode = source ∧ edge.toNode = target

/-- No way along enabled edges returns to where it started. -/
def Acyclic (graph : GraphDefinition) : Prop := ∀ id, ¬ Relation.TransGen (Leads graph) id id

open Classical in
/-- How many ends of edges lead to the node. -/
noncomputable def rank (graph : GraphDefinition) (id : String) : ℕ :=
  ((graph.document.edges.map GraphEdge.fromNode).toFinset.filter (fun source =>
    Relation.TransGen (Leads graph) source id)).card

theorem rank_lt (h : Acyclic graph) {source target : String} (hleads : Leads graph source target) :
    rank graph source < rank graph target := by
  classical
  apply Finset.card_lt_card
  rw [Finset.ssubset_iff_of_subset]
  · refine ⟨source, ?_, ?_⟩
    · obtain ⟨edge, hedge, -, hfrom, -⟩ := id hleads
      rw [Finset.mem_filter, List.mem_toFinset]
      exact ⟨List.mem_map.mpr ⟨edge, hedge, hfrom⟩, .single hleads⟩
    · rw [Finset.mem_filter]
      exact fun hmem => h source hmem.2
  · intro first hfirst
    rw [Finset.mem_filter] at hfirst ⊢
    exact ⟨hfirst.1, hfirst.2.tail hleads⟩

/-- Nodes that can be numbered along the edges are on no cycle. -/
theorem acyclic_of_numbered (number : String → ℕ)
    (h : ∀ edge ∈ graph.document.edges, number edge.fromNode < number edge.toNode) :
    Acyclic graph := by
  have hlt : ∀ {a b}, Relation.TransGen (Leads graph) a b → number a < number b := by
    intro a b hab
    induction hab with
    | single hleads =>
      obtain ⟨edge, hedge, -, rfl, rfl⟩ := hleads
      exact h edge hedge
    | tail _ hleads ih =>
      obtain ⟨edge, hedge, -, rfl, rfl⟩ := hleads
      exact ih.trans (h edge hedge)
  intro id hcycle
  exact lt_irrefl _ (hlt hcycle)

end Ranks

variable {target : GraphDefinition} {project : ProjectDocument}

section Addresses

/-- The call nodes on the path to an instance, and its own node. -/
def address (key : InstanceKey) : List String := key.callPath ++ [key.nodeId]

def calleeAt (project : ProjectDocument) (graph : GraphDefinition) (id : String) :
    Option GraphDefinition :=
  (nodeOf graph id).bind (fun node => project.getGraph node.operatorId)

/-- The ranks of the nodes of an address, each in the Graph it stands in. -/
noncomputable def ranks (project : ProjectDocument) : GraphDefinition → List String → List ℕ
  | _, [] => []
  | graph, id :: rest =>
    rank graph id ::
      ((calleeAt project graph id).map (fun callee => ranks project callee rest)).getD []

variable {path : List String}

theorem length_ranks_le (graph : GraphDefinition) (ids : List String) :
    (ranks project graph ids).length ≤ ids.length := by
  induction ids generalizing graph with
  | nil => exact Nat.le_refl 0
  | cons id rest ih =>
    rw [ranks, List.length_cons, List.length_cons]
    apply Nat.succ_le_succ
    cases calleeAt project graph id with
    | none => exact Nat.zero_le _
    | some callee => exact ih callee

theorem nodeOf_mem (hwf : WellFormed project) (hgraph : graph ∈ project.graphs) {node : GraphNode}
    (hnode : node ∈ graph.document.nodes) : nodeOf graph node.id = some node := by
  rw [← nodeNamed_eq hwf hgraph]
  exact (nodeNamed_iff hwf hgraph).mpr ⟨hnode, rfl⟩

/-- The ranks along a path of calls, then those in the Graph it leads to. -/
theorem ranks_append (hwf : WellFormed project) {start : GraphDefinition}
    (hstart : start ∈ project.graphs) (h : Calls project start path graph) (rest : List String) :
    ranks project start (path ++ rest) = ranks project start path ++ ranks project graph rest := by
  induction path generalizing start with
  | nil =>
    obtain rfl := h.eq_of_nil
    rfl
  | cons first path ih =>
    obtain ⟨node, callee, hnode, -, rfl, hcallee, hcalls⟩ := h.exists_head
    have hcalleeAt : calleeAt project start node.id = some callee := by
      rw [calleeAt, nodeOf_mem hwf hstart hnode]
      exact hcallee
    have hknown : callee ∈ project.graphs := List.mem_of_find?_eq_some hcallee
    rw [List.cons_append, ranks, ranks, hcalleeAt]
    exact congrArg (List.cons _) (ih hknown hcalls)

/-- Every call lowers the rank of the Graph, so a path has fewer calls than the
project has Graphs. -/
theorem length_lt_of_calls (hwf : WellFormed project) (htarget : target ∈ project.graphs)
    (h : Calls project target path graph) : path.length < project.graphs.length := by
  obtain ⟨height, hbound, hlower⟩ := hwf.ranked
  have hsum : height graph.id + path.length ≤ height target.id := by
    induction h with
    | here => exact Nat.le_refl _
    | @call path graph callee node hcalls hnode hcall hcallee ih =>
      have hless := hlower graph (hcalls.mem_graphs htarget) node hnode hcall
      rw [← getGraph_id hcallee] at hless
      rw [List.length_append, List.length_singleton]
      omega
  have hless := hbound target htarget
  omega

end Addresses

section Connections

variable {projectId : String} {key source : InstanceKey}

/-- The ends of a wire stand at the ends of its edge, or one call below them. -/
theorem splice_ends {edge : GraphEdge} {wire : Wire} (h : splice project graph edge = some wire) :
    edge.enabled ∧
      (∃ rest, wire.source.path ++ [wire.source.nodeId] = edge.fromNode :: rest ∧ rest.length ≤ 1) ∧
      ∃ rest, wire.target.path ++ [wire.target.nodeId] = edge.toNode :: rest := by
  unfold splice at h
  split_ifs at h with henabled
  obtain ⟨target, htarget, h⟩ := Option.bind_eq_some_iff.mp h
  obtain ⟨source, hsource, h⟩ := Option.bind_eq_some_iff.mp h
  cases h
  have hnamed : ∀ {id : String} {node : GraphNode}, nodeOf graph id = some node → node.id = id :=
    fun hnode => by simpa using List.find?_some hnode
  refine ⟨henabled, ?_, ?_⟩
  · obtain ⟨node, hnode, hsource⟩ := Option.bind_eq_some_iff.mp hsource
    have hfrom : target.2.fromNode = edge.fromNode := by
      obtain ⟨node', -, htarget⟩ := Option.bind_eq_some_iff.mp htarget
      split_ifs at htarget
      · obtain ⟨callee, -, htarget⟩ := Option.bind_eq_some_iff.mp htarget
        obtain ⟨boundary, -, htarget⟩ := Option.bind_eq_some_iff.mp htarget
        cases htarget
        rfl
      · cases htarget
        rfl
    rw [← hfrom, ← hnamed hnode]
    split_ifs at hsource
    · obtain ⟨callee, -, hsource⟩ := Option.bind_eq_some_iff.mp hsource
      obtain ⟨boundary, -, hsource⟩ := Option.bind_eq_some_iff.mp hsource
      cases hsource
      exact ⟨[boundary.id], rfl, Nat.le_refl 1⟩
    · cases hsource
      exact ⟨[], rfl, Nat.zero_le 1⟩
  · obtain ⟨node, hnode, htarget⟩ := Option.bind_eq_some_iff.mp htarget
    rw [← hnamed hnode]
    split_ifs at htarget
    · obtain ⟨callee, -, htarget⟩ := Option.bind_eq_some_iff.mp htarget
      obtain ⟨boundary, -, htarget⟩ := Option.bind_eq_some_iff.mp htarget
      cases htarget
      exact ⟨[boundary.id], rfl⟩
    · cases htarget
      exact ⟨[], rfl⟩

/-- Two instances joined by a connection have addresses that part at the ends of
an edge. -/
theorem address_of_feeds (h : Feeds project target projectId source key) :
    ∃ visit : Visit, Calls project target visit.callPath visit.graph ∧
      ∃ first last left right, Leads visit.graph first last ∧ left.length ≤ 1 ∧
        address source = visit.callPath ++ first :: left ∧
        address key = visit.callPath ++ last :: right := by
  obtain ⟨visit, hcalls, arrival, harrival, rfl, rfl⟩ := h
  obtain ⟨edge, hedge, hwire⟩ := List.mem_filterMap.mp harrival
  obtain ⟨wire, hsplice, rfl⟩ := Option.map_eq_some_iff.mp hwire
  obtain ⟨henabled, ⟨left, hleft, hshort⟩, right, hright⟩ := splice_ends hsplice
  refine ⟨visit, hcalls, edge.fromNode, edge.toNode, left, right, ⟨edge, hedge, henabled, rfl, rfl⟩,
    hshort, ?_, ?_⟩
  · rw [← hleft, ← List.append_assoc]
    rfl
  · rw [← hright, ← List.append_assoc]
    rfl

variable (hwf : WellFormed project) (htarget : target ∈ project.graphs)
  (hacyclic : ∀ path graph, Calls project target path graph → Acyclic graph)
include hwf htarget hacyclic

/-- Upstream the ranks of the address are below. -/
theorem below_of_feeds (h : Feeds project target projectId source key) :
    Below (project.graphs.length + 1) (ranks project target (address source))
      (ranks project target (address key)) := by
  obtain ⟨visit, hcalls, first, last, left, right, hleads, hshort, hsource, hkey⟩ :=
    address_of_feeds h
  constructor
  · have hpath := length_lt_of_calls hwf htarget hcalls
    refine (length_ranks_le target (address source)).trans ?_
    rw [hsource, List.length_append, List.length_cons]
    omega
  · rw [hsource, hkey, ranks_append hwf htarget hcalls, ranks_append hwf htarget hcalls, ranks,
      ranks]
    exact ⟨_, _, _, _, _, rank_lt (hacyclic _ _ hcalls) hleads, rfl, rfl⟩

theorem wellFounded_feeds : WellFounded (Feeds project target projectId) := by
  have hsub : Subrelation (Feeds project target projectId)
      (InvImage (Below (project.graphs.length + 1))
        (fun key => ranks project target (address key))) :=
    fun h => below_of_feeds hwf htarget hacyclic h
  exact hsub.wf (InvImage.wf _ (wellFounded_below _))

end Connections

/-- A Graph whose reachable Graphs have no cycle along their enabled edges, a
call counting as one node, always expands. -/
theorem acyclic_graph_expands {casefold : String → String} {project : ProjectDocument}
    {graphId projectId : String} {target : GraphDefinition} (hvalid : project.Valid casefold)
    (htarget : project.getGraph graphId = some target)
    (hacyclic : ∀ path graph, Calls project target path graph → Acyclic graph) :
    ∃ expanded, expandGraph project graphId projectId = .ok expanded := by
  have hwf := hvalid.wellFormed
  have hknown : target ∈ project.graphs := List.mem_of_find?_eq_some htarget
  obtain ⟨found, stage⟩ := exists_stage hwf htarget
  apply expandGraph_exists hwf htarget
  intro caller visit node _ _ _
  have hsub : Subrelation (Reads project target projectId) (Feeds project target projectId) :=
    fun h => feeds_of_reads stage h
  exact hsub.accessible ((wellFounded_feeds hwf hknown hacyclic).apply _)

/-- A Graph that loads a value and hands it to a Graph that passes it on. -/
theorem callProject_acyclic_expands :
    ∃ expanded, expandGraph (callProject "a" "b") "main" "p" = .ok expanded := by
  have hmem : ∀ graph ∈ (callProject "a" "b").graphs, Acyclic graph := by
    intro graph hgraph
    apply acyclic_of_numbered (fun id => if id = "out" ∨ id = "b" then 1 else 0)
    revert graph
    decide
  have hget : (callProject "a" "b").getGraph "main" = some ((callProject "a" "b").graphs[1]) := rfl
  refine acyclic_graph_expands callProject_valid hget ?_
  intro path graph hcalls
  exact hmem graph (hcalls.mem_graphs (List.mem_of_find?_eq_some hget))

end Grafy.AcyclicExpansion
