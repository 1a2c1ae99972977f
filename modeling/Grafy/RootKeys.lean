import Grafy.Renaming

/-!
Instance keys across root Graphs. A key names the Graph a node stands in and
the call nodes entered to reach it, but not the Graph the expansion starts at.
Two target Graphs therefore share a key whenever call nodes of the same ids
lead from both of them to one Graph. The instances behind a shared key are the
same exactly when the two call sites feed the callee alike.
-/
namespace Grafy.RootKeys

open CanonicalJson DocumentRules Expansion Fingerprints GraphDocuments Instances Loops OrderedDict
  Project Renaming Results

section Snapshots

/-- A derived state; it is never stored. -/
inductive InstanceState
  | fresh
  | stale
  | queued
  | running
  | failed
  deriving DecidableEq

inductive Flight
  | queued
  | running
  deriving DecidableEq

structure InstanceStateSnapshot where
  key : InstanceKey
  state : InstanceState
  fingerprint : Fingerprint
  lastResultFingerprint : Option Fingerprint
  error : Option String
  deriving DecidableEq

inductive SnapshotError
  | expansion (error : ExpansionError)
  | fingerprints (error : FingerprintError)
  | missingFingerprint (key : InstanceKey)
  deriving DecidableEq

variable (store : ResultStore) (inFlight : Fingerprint → Option Flight)

def deriveInstanceState (key : InstanceKey) (fingerprint : Fingerprint) : InstanceState :=
  if (store.getResult fingerprint).isSome then .fresh
  else
    match inFlight fingerprint with
    | some .running => .running
    | some .queued => .queued
    | none =>
      match (store.pointers.get? key).bind InstancePointer.lastFailure with
      | some failure => if failure.fingerprint = fingerprint then .failed else .stale
      | none => .stale

/-- The message an instance carries while failed; nothing else has one. -/
def pointerError (state : InstanceState) (pointer : Option InstancePointer) : Option String :=
  if state = .failed then (pointer.bind InstancePointer.lastFailure).map FailureRecord.message
  else none

def snapshot (key : InstanceKey) (fingerprint : Fingerprint) : InstanceStateSnapshot :=
  let state := deriveInstanceState store inFlight key fingerprint
  let pointer := store.pointers.get? key
  { key := key
    state := state
    fingerprint := fingerprint
    lastResultFingerprint := pointer.bind InstancePointer.lastResultFingerprint
    error := pointerError state pointer }

variable (sha256 : String → Fingerprint) (facts : FingerprintFacts) (project : ProjectDocument)
  (projectId : String)

def graphSnapshots (graph : GraphDefinition) : Except SnapshotError (List InstanceStateSnapshot) :=
    do
  let expanded ← (expandGraph project graph.id projectId).mapError .expansion
  let fingerprints ← (computeFingerprints sha256 expanded facts).mapError .fingerprints
  expanded.order.mapM (fun key =>
    match fingerprints.get? key with
    | none => .error (.missingFingerprint key)
    | some fingerprint => .ok (snapshot store inFlight key fingerprint))

/-- Every instance of every Graph with its state, each Graph expanded on its
own; one pass over a store that stands still. -/
def snapshots : Except SnapshotError (List InstanceStateSnapshot) := do
  let perGraph ← project.graphs.mapM
    (graphSnapshots store inFlight sha256 facts project projectId)
  return perGraph.flatten

end Snapshots

section Sites

variable (project : ProjectDocument) (projectId : String)

/-- The origins that stand at an input of the callee: its own while the call
site draws nothing there, otherwise those of the site. -/
def standingOrigins (callee : GraphDefinition) (site : Site) (node : GraphNode) :
    List GraphOrigin :=
  (if callerDraws (some site) node then [] else drawnOrigins ⟨callee, []⟩ (atNode node)) ++
    (callerOrigins (some site) node).map
      (originAtBoundary (keyAt projectId callee site.callPath node))

/-- Two call sites that feed the inputs of one callee alike. -/
structure FedAlike (callee : GraphDefinition) (site site' : Site) : Prop where
  connections : ∀ node ∈ callee.document.nodes, isInput node →
    callerConnections project projectId (some site) node =
      callerConnections project projectId (some site') node
  origins : ∀ node ∈ callee.document.nodes, isInput node →
    standingOrigins projectId callee site node = standingOrigins projectId callee site' node

/-- Call nodes of two Graphs, reached from the two targets over one call path,
that call one Graph feed it alike. -/
def SitesAgree (target target' : GraphDefinition) : Prop :=
  ∀ site site' callee, Placed project target (some site) ⟨callee, site.callPath⟩ →
    Placed project target' (some site') ⟨callee, site'.callPath⟩ → site.callPath = site'.callPath →
    site.visit.graph.id ≠ site'.visit.graph.id → FedAlike project projectId callee site site'

/-- A key of both expansions stands for one instance. -/
def KeysAgree (expanded expanded' : ExpandedGraph) (fps fps' : Dict InstanceKey Fingerprint) :
    Prop :=
  ∀ key inst inst', expanded.instances.get? key = some inst →
    expanded'.instances.get? key = some inst' →
    inst.connections = inst'.connections ∧ inst.origins = inst'.origins ∧
      fps.get? key = fps'.get? key

end Sites

section Sorting

variable {A : Type*} {r : A → A → Prop} [DecidableRel r]

/-- Entries that are all related keep their order when the list is sorted. -/
theorem filter_insertionSort {p : A → Bool} (hp : ∀ a b, p a → p b → r a b) (l : List A) :
    (l.insertionSort r).filter p = l.filter p := by
  have hpairwise : (l.filter p).Pairwise r := by
    refine List.pairwise_iff_forall_sublist.mpr ?_
    intro a b hab
    have ha := hab.subset (List.mem_cons_self ..)
    have hb := hab.subset (List.mem_cons_of_mem _ (List.mem_singleton_self b))
    exact hp a b (List.mem_filter.mp ha).2 (List.mem_filter.mp hb).2
  have hsub : (l.filter p).Sublist ((l.insertionSort r).filter p) := by
    have hsorted := List.sublist_insertionSort hpairwise List.filter_sublist
    simpa using hsorted.filter p
  have hlength : ((l.insertionSort r).filter p).length = (l.filter p).length :=
    ((List.perm_insertionSort r l).filter p).length_eq
  exact (hsub.eq_of_length hlength.symm).symm

end Sorting

variable {project : ProjectDocument} {projectId : String} {callee : GraphDefinition}
  {site site' : Site}

section Instances

variable {node : GraphNode}

theorem incomingSlot_callerConnections {connection : Connection}
    (h : connection ∈ callerConnections project projectId (some site) node) :
    incomingSlot connection = (graphBoundaryPort, "") := by
  obtain ⟨edge, -, hedge⟩ := List.mem_filterMap.mp h
  by_cases hfeeds : edge.enabled && atSite site node edge.toNode edge.toPort
  · rw [if_pos hfeeds, if_pos rfl] at hedge
    obtain ⟨source, -, rfl⟩ := Option.map_eq_some_iff.mp hedge
    rfl
  · rw [if_neg hfeeds] at hedge
    simp at hedge

/-- Sorting loses nothing of what a call site feeds: all of it arrives in one
slot, ahead of what the callee draws there itself. -/
theorem callerConnections_eq_of_sorted {own : List Connection}
    (h : (callerConnections project projectId (some site) node ++ own).insertionSort
        (fun a b => PairLE (incomingSlot a) (incomingSlot b)) =
      (callerConnections project projectId (some site') node ++ own).insertionSort
        (fun a b => PairLE (incomingSlot a) (incomingSlot b))) :
    callerConnections project projectId (some site) node =
      callerConnections project projectId (some site') node := by
  have hslot : ∀ a b : Connection, decide (incomingSlot a = (graphBoundaryPort, "")) = true →
      decide (incomingSlot b = (graphBoundaryPort, "")) = true →
      PairLE (incomingSlot a) (incomingSlot b) := by
    intro a b ha hb
    rw [of_decide_eq_true ha, of_decide_eq_true hb]
    exact Or.inr ⟨rfl, le_refl _⟩
  have hall : ∀ s : Site, (callerConnections project projectId (some s) node).filter
      (fun c => decide (incomingSlot c = (graphBoundaryPort, ""))) =
        callerConnections project projectId (some s) node := by
    intro s
    refine List.filter_eq_self.mpr ?_
    intro connection hconnection
    exact decide_eq_true (incomingSlot_callerConnections hconnection)
  have hfiltered := congrArg (List.filter
    (fun c => decide (incomingSlot c = (graphBoundaryPort, "")))) h
  rw [filter_insertionSort hslot, filter_insertionSort hslot, List.filter_append,
    List.filter_append, hall, hall] at hfiltered
  exact List.append_cancel_right hfiltered

theorem connections_instanceOf_iff (callee : GraphDefinition)
    (hpath : site.callPath = site'.callPath) :
    (instanceOf project projectId (some site) ⟨callee, site.callPath⟩ node).connections =
        (instanceOf project projectId (some site') ⟨callee, site'.callPath⟩ node).connections ↔
      callerConnections project projectId (some site) node =
        callerConnections project projectId (some site') node := by
  rw [← hpath]
  constructor
  · intro h
    exact callerConnections_eq_of_sorted h
  · intro h
    simp only [instanceOf, draftInstance, h]

theorem origins_instanceOf (project : ProjectDocument) (site : Site) :
    (instanceOf project projectId (some site) ⟨callee, site.callPath⟩ node).origins =
      standingOrigins projectId callee site node := rfl

theorem fed_of_not_input (hinput : isInput node = false) :
    callerConnections project projectId (some site) node =
        callerConnections project projectId (some site') node ∧
      standingOrigins projectId callee site node = standingOrigins projectId callee site' node := by
  have hnever : ∀ s : Site, atSite s node = fun _ _ => false := by
    intro s
    funext toNode toPort
    simp [atSite, hinput]
  constructor
  · simp [callerConnections, drawnConnections, hnever]
  · simp [standingOrigins, callerDraws, callerOrigins, drawn, drawnOrigins, hnever]

end Instances

variable {expanded expanded' : ExpandedGraph} {inst' inst : ExpandedInstance} {key : InstanceKey}
  {sha256 : String → Fingerprint} {facts : FingerprintFacts}

section Roots

variable {target target' : GraphDefinition} (hwf : WellFormed project)
  (hknown : target ∈ project.graphs) (hknown' : target' ∈ project.graphs)
  (hne : target.id ≠ target'.id) (hexp : Expands project target projectId expanded)
  (hexp' : Expands project target' projectId expanded')
include hwf hknown hknown' hne hexp hexp'

/-- A key of both expansions stands beneath two call sites of one callee. -/
theorem exists_sites_of_shared_key (hinst : expanded.instances.get? key = some inst)
    (hinst' : expanded'.instances.get? key = some inst') :
    ∃ site site' callee node, Placed project target (some site) ⟨callee, site.callPath⟩ ∧
      Placed project target' (some site') ⟨callee, site'.callPath⟩ ∧
      site.callPath = site'.callPath ∧ node ∈ callee.document.nodes ∧ isCall node = false ∧
      key = keyAt projectId callee site.callPath node := by
  obtain ⟨caller, visit, node, hplaced, hnode, hcall, hkey⟩ := hexp.placed hinst
  obtain ⟨caller', visit', node', hplaced', hnode', -, hkey'⟩ := hexp'.placed hinst'
  have hkeys := hkey.symm.trans hkey'
  have hgraph : visit.graph = visit'.graph :=
    List.inj_on_of_nodup_map hwf.ids (hplaced.calls.mem_graphs hknown)
      (hplaced'.calls.mem_graphs hknown') (congrArg InstanceKey.graphId hkeys)
  have hpath : visit.callPath = visit'.callPath := congrArg InstanceKey.callPath hkeys
  -- the empty path leads to the target itself, and the targets differ
  cases hplaced with
  | root =>
    cases hplaced' with
    | root => exact absurd (congrArg GraphDefinition.id hgraph) hne
    | called => simp [Site.callPath] at hpath
  | @called site callee hcalls hsite hsitecall hcallee =>
    cases hplaced' with
    | root => simp [Site.callPath] at hpath
    | @called site' callee' hcalls' hsite' hsitecall' hcallee' =>
      obtain rfl : callee = callee' := hgraph
      exact ⟨site, site', callee, node, .called hcalls hsite hsitecall hcallee,
        .called hcalls' hsite' hsitecall' hcallee', hpath, hnode, hcall, hkey⟩

omit hne hexp hexp' in
/-- Two sites in one Graph over one call path are one site. -/
theorem fedAlike_of_sitesAgree (hagree : SitesAgree project projectId target target')
    (hplaced : Placed project target (some site) ⟨callee, site.callPath⟩)
    (hplaced' : Placed project target' (some site') ⟨callee, site'.callPath⟩)
    (hpath : site.callPath = site'.callPath) : FedAlike project projectId callee site site' := by
  by_cases hgraph : site.visit.graph.id = site'.visit.graph.id
  · obtain ⟨⟨graph, path⟩, node⟩ := site
    obtain ⟨⟨graph', path'⟩, node'⟩ := site'
    cases hplaced with
    | called hcalls hnode =>
      cases hplaced' with
      | called hcalls' hnode' =>
        obtain rfl : graph = graph' := List.inj_on_of_nodup_map hwf.ids (hcalls.mem_graphs hknown)
          (hcalls'.mem_graphs hknown') hgraph
        obtain ⟨rfl, hid⟩ : path = path' ∧ node.id = node'.id := by
          simpa [Site.callPath] using hpath
        obtain rfl := List.inj_on_of_nodup_map
          (hwf.anchored graph (hcalls.mem_graphs hknown)).nodeIds hnode hnode' hid
        exact ⟨fun _ _ _ => rfl, fun _ _ _ => rfl⟩
  · exact hagree site site' callee hplaced hplaced' hpath hgraph

theorem same_instances_of_sitesAgree (hagree : SitesAgree project projectId target target')
    (hinst : expanded.instances.get? key = some inst)
    (hinst' : expanded'.instances.get? key = some inst') : inst = inst' := by
  obtain ⟨site, site', callee, node, hplaced, hplaced', hpath, hnode, hcall, rfl⟩ :=
    exists_sites_of_shared_key hwf hknown hknown' hne hexp hexp' hinst hinst'
  cases (hexp.get hplaced hnode hcall).symm.trans hinst
  rw [hpath] at hinst'
  cases (hexp'.get hplaced' hnode hcall).symm.trans hinst'
  have hfed := fedAlike_of_sitesAgree hwf hknown hknown' hagree hplaced hplaced' hpath
  have hboth : callerConnections project projectId (some site) node =
        callerConnections project projectId (some site') node ∧
      standingOrigins projectId callee site node = standingOrigins projectId callee site' node := by
    cases hinput : isInput node with
    | true => exact ⟨hfed.connections node hnode hinput, hfed.origins node hnode hinput⟩
    | false => exact fed_of_not_input hinput
  have hconnections := (connections_instanceOf_iff callee hpath).mpr hboth.1
  have horigins := hboth.2
  rw [← origins_instanceOf project site, ← origins_instanceOf project site'] at horigins
  rw [← hpath] at hconnections horigins ⊢
  simp only [instanceOf, draftInstance, ExpandedInstance.mk.injEq] at hconnections horigins ⊢
  exact ⟨trivial, trivial, hconnections, horigins, trivial⟩

theorem keysAgree_iff_sitesAgree {fps fps' : Dict InstanceKey Fingerprint}
    (hfps : computeFingerprints sha256 expanded facts = .ok fps)
    (hfps' : computeFingerprints sha256 expanded' facts = .ok fps') :
    KeysAgree expanded expanded' fps fps' ↔ SitesAgree project projectId target target' := by
  constructor
  · intro hkeys site site' callee hplaced hplaced' hpath _
    have hboth : ∀ node ∈ callee.document.nodes, isInput node →
        callerConnections project projectId (some site) node =
            callerConnections project projectId (some site') node ∧
          standingOrigins projectId callee site node =
            standingOrigins projectId callee site' node := by
      intro node hnode hinput
      have hcall := isCall_of_boundary hwf (hplaced.calls.mem_graphs hknown) hnode (Or.inl hinput)
      have hinst := hexp.get hplaced hnode hcall
      have hinst' := hexp'.get hplaced' hnode hcall
      rw [← hpath] at hinst'
      obtain ⟨hconnections, horigins, -⟩ := hkeys _ _ _ hinst hinst'
      rw [hpath] at horigins
      exact ⟨callerConnections_eq_of_sorted hconnections, horigins⟩
    exact ⟨fun node hnode hinput => (hboth node hnode hinput).1,
      fun node hnode hinput => (hboth node hnode hinput).2⟩
  · intro hagree key inst inst' hinst hinst'
    obtain rfl := same_instances_of_sitesAgree hwf hknown hknown' hne hexp hexp' hagree hinst hinst'
    refine ⟨rfl, rfl, ?_⟩
    obtain ⟨hfingerprinted, hcovers⟩ := computeFingerprints_ok hfps
    obtain ⟨hfingerprinted', hcovers'⟩ := computeFingerprints_ok hfps'
    obtain ⟨f, hf⟩ := Option.isSome_iff_exists.mp
      (hcovers key ((hexp.topological.covers key).mpr ⟨inst, hinst⟩))
    have hcovered : ∀ key inst, expanded'.instances.get? key = some inst → (fps'.get? key).isSome :=
      fun key inst hinst => hcovers' key ((hexp'.topological.covers key).mpr ⟨inst, hinst⟩)
    -- a shared key is paired with itself; its sources are keys of both expansions again
    have hsame : fps'.get? key = some f := fingerprint_eq_of_simulation (R := fun k k' => k = k' ∧
        (expanded.instances.get? k).isSome ∧ (expanded'.instances.get? k).isSome)
      hfingerprinted hfingerprinted' hcovered (by
        rintro k _ ⟨rfl, hk, hk'⟩
        obtain ⟨found, hfound⟩ := Option.isSome_iff_exists.mp hk
        obtain ⟨found', hfound'⟩ := Option.isSome_iff_exists.mp hk'
        obtain rfl := same_instances_of_sitesAgree hwf hknown hknown' hne hexp hexp' hagree
          hfound hfound'
        refine Or.inr ⟨found, found, hfound, hfound', ?_⟩
        refine ⟨rfl, rfl, rfl, rfl, rfl, rfl, rfl, rfl, rfl, rfl, List.forall₂_same.mpr ?_,
          List.forall₂_same.mpr ?_⟩
        · intro connection hconnection
          exact ⟨⟨rfl, rfl, rfl, rfl, rfl, rfl⟩, rfl, hexp.closed hfound connection hconnection,
            hexp'.closed hfound' connection hconnection⟩
        · intro origin _
          exact ⟨rfl, rfl, SameValue.refl origin.value, rfl, rfl⟩)
      ⟨rfl, by simp [hinst], by simp [hinst']⟩ hf
    rw [hf, hsame]

end Roots

section Passes

variable {store : ResultStore} {inFlight : Fingerprint → Option Flight}

/-- A snapshot is of an instance of one of the Graphs, with its fingerprint. -/
theorem mem_snapshots {taken : List InstanceStateSnapshot}
    (h : snapshots store inFlight sha256 facts project projectId = .ok taken)
    {entry : InstanceStateSnapshot} (hentry : entry ∈ taken) :
    ∃ graph ∈ project.graphs, ∃ expanded fps, expandGraph project graph.id projectId =
      .ok expanded ∧
      computeFingerprints sha256 expanded facts = .ok fps ∧
      entry.key ∈ expanded.order ∧ fps.get? entry.key = some entry.fingerprint ∧
      entry = snapshot store inFlight entry.key entry.fingerprint := by
  obtain ⟨perGraph, hperGraph, hflat⟩ := bind_ok.mp h
  obtain rfl : perGraph.flatten = taken := by simpa [pure, Except.pure] using hflat
  obtain ⟨entries, hentries, hentry⟩ := List.mem_flatten.mp hentry
  obtain ⟨graph, hgraph, htaken⟩ := Alignment.exists_left (mapM_ok hperGraph) hentries
  obtain ⟨expanded, hexpand, htaken⟩ := bind_ok.mp htaken
  obtain ⟨fps, hfps, htaken⟩ := bind_ok.mp htaken
  obtain ⟨key, hkey, hsnapshot⟩ := Alignment.exists_left (mapM_ok htaken) hentry
  cases hget : fps.get? key with
  | none => simp [hget] at hsnapshot
  | some fingerprint =>
    obtain rfl : snapshot store inFlight key fingerprint = entry := by simpa [hget] using hsnapshot
    refine ⟨graph, hgraph, expanded, fps, ?_, ?_, hkey, hget, rfl⟩
    · cases hresult : expandGraph project graph.id projectId with
      | error e => simp [hresult, Except.mapError] at hexpand
      | ok value => simpa [hresult, Except.mapError] using hexpand
    · cases hresult : computeFingerprints sha256 expanded facts with
      | error e => simp [hresult, Except.mapError] at hfps
      | ok value => simpa [hresult, Except.mapError] using hfps

/-- Graphs that all expand have snapshots of all their instances. -/
theorem snapshots_exists (store : ResultStore) (inFlight : Fingerprint → Option Flight)
    (sha256 : String → Fingerprint) (facts : FingerprintFacts) (projectId : String)
    (hwf : WellFormed project)
    (hall : ∀ graph ∈ project.graphs, (expandGraph project graph.id projectId).isOk) :
    ∃ taken, snapshots store inFlight sha256 facts project projectId = .ok taken ∧
      ∀ graph ∈ project.graphs, ∀ expanded fps, expandGraph project graph.id projectId =
        .ok expanded →
        computeFingerprints sha256 expanded facts = .ok fps →
        ∀ key f, fps.get? key = some f → key ∈ expanded.order →
          snapshot store inFlight key f ∈ taken := by
  have hgraph : ∀ graph ∈ project.graphs, ∃ entries,
      graphSnapshots store inFlight sha256 facts project projectId graph = .ok entries := by
    intro graph hgraph
    have hok := hall graph hgraph
    cases hexpand : expandGraph project graph.id projectId with
    | error e => simp [hexpand, Except.isOk, Except.toBool] at hok
    | ok expanded =>
      obtain ⟨target, -, hexp⟩ := expandGraph_ok hwf hexpand
      obtain ⟨fps, hfps⟩ := computeFingerprints_exists sha256 facts hexp.topological hexp.closed
      obtain ⟨entries, hentries⟩ := mapM_exists (l := expanded.order) (f := fun key =>
          match fps.get? key with
          | none => .error (SnapshotError.missingFingerprint key)
          | some fingerprint => .ok (snapshot store inFlight key fingerprint)) (by
        intro key hkey
        obtain ⟨f, hf⟩ := Option.isSome_iff_exists.mp ((computeFingerprints_ok hfps).2 key hkey)
        exact ⟨snapshot store inFlight key f, by simp [hf]⟩)
      refine ⟨entries, ?_⟩
      simp only [graphSnapshots, hexpand, hfps, Except.mapError, bind, Except.bind]
      exact hentries
  obtain ⟨perGraph, hperGraph⟩ := mapM_exists hgraph
  refine ⟨perGraph.flatten, bind_ok.mpr ⟨perGraph, hperGraph, rfl⟩, ?_⟩
  intro graph hgraph expanded fps hexpand hfps key f hf hkey
  obtain ⟨entries, hentries, htaken⟩ := Alignment.exists_right (mapM_ok hperGraph) hgraph
  simp only [graphSnapshots, hexpand, hfps, Except.mapError, bind, Except.bind] at htaken
  obtain ⟨entry, hentry, hsnapshot⟩ := Alignment.exists_right (mapM_ok htaken) hkey
  obtain rfl : snapshot store inFlight key f = entry := by simpa [hf] using hsnapshot
  exact List.mem_flatten.mpr ⟨entries, hentries, hentry⟩

end Passes

/-- A key that two Graphs of a document share stands for one instance exactly
when the call sites beneath which it stands feed the callee alike. When all
pairs of Graphs agree so, no two snapshots of one key differ. -/
theorem root_keys_agree_iff {casefold : String → String} {project : ProjectDocument}
    {projectId : String} {sha256 : String → Fingerprint} {facts : FingerprintFacts}
    (hvalid : project.Valid casefold) :
    (∀ graphId graphId' target target' expanded expanded' fps fps',
      project.getGraph graphId = some target → project.getGraph graphId' = some target' →
      graphId ≠ graphId' → expandGraph project graphId projectId = .ok expanded →
      expandGraph project graphId' projectId = .ok expanded' →
      computeFingerprints sha256 expanded facts = .ok fps →
      computeFingerprints sha256 expanded' facts = .ok fps' →
      (KeysAgree expanded expanded' fps fps' ↔ SitesAgree project projectId target target')) ∧
    ((∀ target ∈ project.graphs, ∀ target' ∈ project.graphs, target.id ≠ target'.id →
        SitesAgree project projectId target target') →
      ∀ store inFlight taken, snapshots store inFlight sha256 facts project projectId = .ok taken →
      ∀ a ∈ taken, ∀ b ∈ taken, a.key = b.key → a = b) := by
  have hwf := hvalid.wellFormed
  have hpair : ∀ graphId graphId' target target' expanded expanded' fps fps',
      project.getGraph graphId = some target → project.getGraph graphId' = some target' →
      graphId ≠ graphId' → expandGraph project graphId projectId = .ok expanded →
      expandGraph project graphId' projectId = .ok expanded' →
      computeFingerprints sha256 expanded facts = .ok fps →
      computeFingerprints sha256 expanded' facts = .ok fps' →
      (KeysAgree expanded expanded' fps fps' ↔ SitesAgree project projectId target target') := by
    intro graphId graphId' target target' expanded expanded' fps fps' htarget htarget' hne
      hexpand hexpand' hfps hfps'
    obtain ⟨_, hget, hexp⟩ := expandGraph_ok hwf hexpand
    cases htarget.symm.trans hget
    obtain ⟨_, hget', hexp'⟩ := expandGraph_ok hwf hexpand'
    cases htarget'.symm.trans hget'
    refine keysAgree_iff_sitesAgree hwf (List.mem_of_find?_eq_some htarget)
      (List.mem_of_find?_eq_some htarget') ?_ hexp hexp' hfps hfps'
    rw [getGraph_id htarget, getGraph_id htarget']
    exact hne
  refine ⟨hpair, ?_⟩
  intro hagree store inFlight taken htaken a ha b hb hkey
  obtain ⟨graph, hgraph, expanded, fps, hexpand, hfps, hmem, hget, hshape⟩ :=
    mem_snapshots htaken ha
  obtain ⟨graph', hgraph', expanded', fps', hexpand', hfps', hmem', hget', hshape'⟩ :=
    mem_snapshots htaken hb
  rw [← hkey] at hmem' hget'
  have hfingerprint : a.fingerprint = b.fingerprint := by
    by_cases hids : graph.id = graph'.id
    · rw [hids] at hexpand
      cases hexpand.symm.trans hexpand'
      cases hfps.symm.trans hfps'
      exact Option.some.inj (hget.symm.trans hget')
    · obtain ⟨target, htarget, hexp⟩ := expandGraph_ok hwf hexpand
      obtain ⟨target', htarget', hexp'⟩ := expandGraph_ok hwf hexpand'
      have hsites : SitesAgree project projectId target target' := by
        refine hagree target (List.mem_of_find?_eq_some htarget) target'
          (List.mem_of_find?_eq_some htarget') ?_
        rw [getGraph_id htarget, getGraph_id htarget']
        exact hids
      obtain ⟨inst, hinst⟩ := (hexp.topological.covers _).mp hmem
      obtain ⟨inst', hinst'⟩ := (hexp'.topological.covers _).mp hmem'
      have hkeys :=
        (hpair _ _ _ _ _ _ _ _ htarget htarget' hids hexpand hexpand' hfps hfps').mpr hsites
      obtain ⟨-, -, hfps⟩ := hkeys _ _ _ hinst hinst'
      exact Option.some.inj (hget.symm.trans (hfps.trans hget'))
  rw [hshape, hshape', hkey, hfingerprint]

section Example

/-- Two Graphs that each load a value and hand it to a call of the same Graph;
the ids of the two call nodes are open. -/
def twinProject (call call' : String) : ProjectDocument :=
  let node (kind : GraphNodeKind) (id operator : String) (config : Dict String Json) : GraphNode :=
    ⟨kind, id, operator, 1, config, default, none, [], []⟩
  let caller (id name load call : String) : GraphDefinition :=
    ⟨id, name, ⟨[], [node .builtin "l" load [], node .call call "pass" []],
      [⟨"e", true, "l", "data", call, "x", none, .direct, none, [], none⟩], [], ⟨[], [], [], []⟩⟩,
        []⟩
  ⟨[⟨"pass", "Pass", ⟨[], [node .builtin "in" "graph.input" [("public_name", .str "x")]], [], [],
      ⟨[], [], [], []⟩⟩, []⟩,
    caller "days" "Days" "load.days" call, caller "nights" "Nights" "load.nights" call']⟩

def twinKeys (graph call : String) : List InstanceKey :=
  [⟨"p", graph, [], "l", none⟩, ⟨"p", "pass", [call], "in", none⟩]

variable {call' call : String}

theorem twinProject_valid (hcall : call = "c") (hcall' : call' = "c" ∨ call' = "d") :
    (twinProject call call').Valid id := by
  subst hcall
  rcases hcall' with rfl | rfl
  all_goals
    refine ⟨?_, ?_, by decide⟩
    all_goals
      simp only [twinProject, List.forall_mem_cons, List.not_mem_nil, IsEmpty.forall_iff,
        implies_true, and_true]
      exact ⟨by decide, by decide, by decide⟩

def passKey : InstanceKey := ⟨"p", "pass", ["c"], "in", none⟩

theorem twinProject_expands (hvalid : (twinProject call call').Valid id) (graph : String)
    (keys : List InstanceKey)
    (h : (expandGraph (twinProject call call') graph "p").map ExpandedGraph.order = .ok keys) :
    ∃ expanded fps, expandGraph (twinProject call call') graph "p" = .ok expanded ∧
      computeFingerprints id expanded plainFacts = .ok fps ∧ expanded.order = keys := by
  cases hexpand : expandGraph (twinProject call call') graph "p" with
  | error e => simp [hexpand, Except.map] at h
  | ok expanded =>
    obtain ⟨target, -, hexp⟩ := expandGraph_ok hvalid.wellFormed hexpand
    obtain ⟨fps, hfps⟩ := computeFingerprints_exists id plainFacts hexp.topological hexp.closed
    exact ⟨expanded, fps, rfl, hfps, by simpa [hexpand, Except.map] using h⟩

/-- What the called instance reads, and the operator it reads from. -/
def reading (graph : String) (expanded : ExpandedGraph) :
    Option (List InstanceKey) × Option String :=
  ((expanded.instances.get? passKey).map (fun inst => inst.connections.map Connection.source),
    (expanded.instances.get? ⟨"p", graph, [], "l", none⟩).map (fun inst => inst.node.operatorId))

theorem reading_eq {graph : String} (load : String)
    (hexpand : expandGraph (twinProject "c" "c") graph "p" = .ok expanded)
    (h : (expandGraph (twinProject "c" "c") graph "p").map (reading graph) = .ok (some [⟨"p", graph,
      [], "l", none⟩], some load)) :
    (∃ inst, expanded.instances.get? passKey = some inst ∧
      inst.connections.map Connection.source = [⟨"p", graph, [], "l", none⟩]) ∧
      ∃ inst, expanded.instances.get? ⟨"p", graph, [], "l", none⟩ = some inst ∧
        inst.node.operatorId = load := by
  simp only [hexpand, Except.map, Except.ok.injEq, reading, Prod.mk.injEq] at h
  exact ⟨Option.map_eq_some_iff.mp h.1, Option.map_eq_some_iff.mp h.2⟩

/-- Equal fingerprints would make the two loading nodes alike. -/
theorem operator_eq_of_alike {source source' : InstanceKey} {loader loader' : ExpandedInstance}
    (halike : Alike expanded plainFacts expanded' plainFacts key key)
    (hinst : expanded.instances.get? key = some inst)
    (hinst' : expanded'.instances.get? key = some inst')
    (hsource : inst.connections.map Connection.source = [source])
    (hsource' : inst'.connections.map Connection.source = [source'])
    (hloader : expanded.instances.get? source = some loader)
    (hloader' : expanded'.instances.get? source' = some loader') :
    loader.node.operatorId = loader'.node.operatorId := by
  obtain ⟨hfound, hfound', -, -, hsources, -⟩ := halike
  cases hinst.symm.trans hfound
  cases hinst'.symm.trans hfound'
  obtain ⟨connection, hconnection, rfl⟩ := List.map_eq_singleton_iff.mp hsource
  obtain ⟨connection', hconnection', rfl⟩ := List.map_eq_singleton_iff.mp hsource'
  have hread := hsources (connection, connection') (by simp [hconnection, hconnection'])
  obtain ⟨hfed, hfed', hnode, -, -, -⟩ := hread
  cases hloader.symm.trans hfed
  cases hloader'.symm.trans hfed'
  exact hnode.operatorId

/-- Call nodes of different ids: the two Graphs share no key. -/
theorem twins_apart_agree : ∃ expanded expanded' fps fps',
    expandGraph (twinProject "c" "d") "days" "p" = .ok expanded ∧
      expandGraph (twinProject "c" "d") "nights" "p" = .ok expanded' ∧
      KeysAgree expanded expanded' fps fps' ∧ ∀ target target',
        (twinProject "c" "d").getGraph "days" = some target →
        (twinProject "c" "d").getGraph "nights" = some target' →
        SitesAgree (twinProject "c" "d") "p" target target' := by
  have hvalid : (twinProject "c" "d").Valid id := twinProject_valid rfl (Or.inr rfl)
  obtain ⟨expanded, fps, hexpand, hfps, horder⟩ :=
    twinProject_expands hvalid "days" (twinKeys "days" "c") (by decide)
  obtain ⟨expanded', fps', hexpand', hfps', horder'⟩ :=
    twinProject_expands hvalid "nights" (twinKeys "nights" "d") (by decide)
  have hagree : KeysAgree expanded expanded' fps fps' := by
    intro key inst inst' hinst hinst'
    obtain ⟨target, -, hexp⟩ := expandGraph_ok hvalid.wellFormed hexpand
    obtain ⟨target', -, hexp'⟩ := expandGraph_ok hvalid.wellFormed hexpand'
    have hmem := (hexp.topological.covers key).mpr ⟨inst, hinst⟩
    have hmem' := (hexp'.topological.covers key).mpr ⟨inst', hinst'⟩
    rw [horder] at hmem
    rw [horder'] at hmem'
    exact absurd hmem' ((by decide : ∀ k ∈ twinKeys "days" "c", k ∉ twinKeys "nights" "d") key hmem)
  refine ⟨expanded, expanded', fps, fps', hexpand, hexpand', hagree, ?_⟩
  intro target target' htarget htarget'
  exact ((root_keys_agree_iff hvalid).1 _ _ _ _ _ _ _ _ htarget htarget'
    (by decide) hexpand hexpand'
    hfps hfps').mp hagree

/-- Call nodes of one id: the two calls of the Graph have one key, though they
read different values, and a pass over the Project lists both under it. -/
theorem twins_share_key : (twinProject "c" "c").Valid id ∧ ∃ expanded expanded' fps fps' taken,
    expandGraph (twinProject "c" "c") "days" "p" = .ok expanded ∧
      expandGraph (twinProject "c" "c") "nights" "p" = .ok expanded' ∧
      computeFingerprints id expanded plainFacts = .ok fps ∧
      computeFingerprints id expanded' plainFacts = .ok fps' ∧
      ¬ KeysAgree expanded expanded' fps fps' ∧
      snapshots .empty (fun _ => none) id plainFacts (twinProject "c" "c") "p" = .ok taken ∧
      ∃ a ∈ taken, ∃ b ∈ taken, a.key = b.key ∧ a ≠ b := by
  have hvalid : (twinProject "c" "c").Valid id := twinProject_valid rfl (Or.inl rfl)
  obtain ⟨expanded, fps, hexpand, hfps, horder⟩ :=
    twinProject_expands hvalid "days" (twinKeys "days" "c") (by decide)
  obtain ⟨expanded', fps', hexpand', hfps', horder'⟩ :=
    twinProject_expands hvalid "nights" (twinKeys "nights" "c") (by decide)
  obtain ⟨⟨inst, hinst, hsource⟩, loader, hloader, hdays⟩ :=
    reading_eq "load.days" hexpand (by decide)
  obtain ⟨⟨inst', hinst', hsource'⟩, loader', hloader', hnights⟩ :=
    reading_eq "load.nights" hexpand' (by decide)
  obtain ⟨taken, htaken, hlisted⟩ := snapshots_exists .empty (fun _ => none) id plainFacts "p"
    hvalid.wellFormed (by decide)
  have hpass : passKey ∈ expanded.order := by
    rw [horder]
    decide
  have hpass' : passKey ∈ expanded'.order := by
    rw [horder']
    decide
  obtain ⟨f, hf⟩ := Option.isSome_iff_exists.mp ((computeFingerprints_ok hfps).2 _ hpass)
  obtain ⟨f', hf'⟩ := Option.isSome_iff_exists.mp ((computeFingerprints_ok hfps').2 _ hpass')
  refine ⟨hvalid, expanded, expanded', fps, fps', taken, hexpand, hexpand', hfps, hfps', ?_, htaken,
    snapshot .empty (fun _ => none) passKey f, ?_, snapshot .empty (fun _ => none) passKey f', ?_,
    rfl, ?_⟩
  · intro hagree
    obtain ⟨hconnections, -, -⟩ := hagree _ _ _ hinst hinst'
    rw [hconnections, hsource'] at hsource
    exact absurd hsource (by decide)
  · exact hlisted _ (List.mem_cons_of_mem _ (List.mem_cons_self ..)) expanded fps hexpand hfps _ _
      hf hpass
  · exact hlisted _ (List.mem_cons_of_mem _ (List.mem_cons_of_mem _ (List.mem_cons_self ..)))
      expanded' fps' hexpand' hfps' _ _ hf' hpass'
  · intro hsame
    obtain rfl : f = f' := congrArg InstanceStateSnapshot.fingerprint hsame
    have halike := alike_of_fingerprinted Function.injective_id (computeFingerprints_ok hfps).1
      (computeFingerprints_ok hfps').1 hf hf'
    have hoperator := operator_eq_of_alike halike hinst hinst' hsource hsource' hloader hloader'
    rw [hdays, hnights] at hoperator
    exact absurd hoperator (by decide)

end Example

end Grafy.RootKeys
