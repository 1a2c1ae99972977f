import Grafy.Fingerprints
import Mathlib.Data.List.Perm.Basic

/-!
Equal fingerprints mean equal computations, all the way up. The document of
an instance can be read back from its canonical text: every section and every
entry of the inputs is determined, entries of connections and of origins are
told apart by their length, and optional members by their keys. With an
injective digest the argument repeats at every upstream instance.
-/
namespace Grafy.Fingerprints

open CanonicalJson GraphDocuments Instances OrderedDict Results

section Entries

theorem same_optionalText {a b : Option String} (h : Same (optionalText a) (optionalText b)) :
    a = b := by
  cases a <;> cases b <;> simp [optionalText, Same, sortKeys] at h ⊢
  exact h

theorem GraphNodeKind.text_injective {a b : GraphNodeKind} (h : a.text = b.text) : a = b := by
  cases a <;> cases b <;> simp [GraphNodeKind.text] at h ⊢

theorem CollectionMode.text_injective {a b : CollectionMode} (h : a.text = b.text) : a = b := by
  cases a <;> cases b <;> simp [CollectionMode.text] at h ⊢

/-- Lists of entries are the same when the entries are, one by one. -/
theorem eq_of_same_entries {A : Type*} {entry : A → Json}
    (hentry : ∀ a b, Same (entry a) (entry b) → a = b) {l l' : List A}
    (h : Same (.arr (l.map entry)) (.arr (l'.map entry))) : l = l' := by
  rw [same_arr, List.forall₂_map_left_iff, List.forall₂_map_right_iff] at h
  rw [← List.forall₂_eq_eq_eq]
  exact h.imp hentry

theorem same_conversionEntry {a b : GraphConversion}
    (h : Same (conversionEntry a) (conversionEntry b)) : a = b := by
  obtain ⟨id, version⟩ := a
  obtain ⟨id', version'⟩ := b
  simp only [conversionEntry, same_arr, List.forall₂_cons, same_str, same_int, Nat.cast_inj,
    List.forall₂_nil_left_iff, and_true] at h
  obtain ⟨rfl, rfl⟩ := h
  rfl

theorem same_conversionPath {a b : List GraphConversion}
    (h : Same (conversionPath a) (conversionPath b)) : a = b :=
  eq_of_same_entries (fun _ _ => same_conversionEntry) h

theorem same_projectionEntry {a b : Option GraphProjection}
    (h : Same (projectionEntry a) (projectionEntry b)) : a = b := by
  cases a with
  | none =>
    cases b with
    | none => rfl
    | some q => simp [projectionEntry, Same, sortKeys] at h
  | some p =>
    cases b with
    | none => simp [projectionEntry, Same, sortKeys] at h
    | some q =>
      have hpath : p.path = q.path := eq_of_same_entries (fun _ _ h => same_str.mp h) h
      cases p
      cases q
      rw [Option.some.injEq, GraphProjection.mk.injEq]
      exact hpath

theorem same_plugEntry {a b : GraphInputPlug} (h : Same (plugEntry a) (plugEntry b)) : a = b := by
  obtain ⟨id, port⟩ := a
  obtain ⟨id', port'⟩ := b
  simp only [plugEntry, same_arr, List.forall₂_cons, same_str, List.forall₂_nil_left_iff,
    and_true] at h
  obtain ⟨rfl, rfl⟩ := h
  rfl

theorem same_bindingEntry {a b : GraphArtifactTypeBinding}
    (h : Same (bindingEntry a) (bindingEntry b)) : a = b := by
  obtain ⟨name, ⟨id, version⟩⟩ := a
  obtain ⟨name', ⟨id', version'⟩⟩ := b
  simp only [bindingEntry, same_arr, List.forall₂_cons, same_str, same_int,
    List.forall₂_nil_left_iff, and_true] at h
  obtain ⟨rfl, rfl, rfl⟩ := h
  rfl

/-- The transport of a connection: all its entry holds but the upstream. -/
structure SameTransport (a b : GraphEdge) : Prop where
  fromPort : a.fromPort = b.fromPort
  toPort : a.toPort = b.toPort
  toPlug : a.toPlug = b.toPlug
  collectionMode : a.collectionMode = b.collectionMode
  projection : a.projection = b.projection
  conversionPath : a.conversionPath = b.conversionPath

variable {a : GraphEdge} {f : Fingerprint}

theorem same_connectionEntry {b : GraphEdge} {g : Fingerprint}
    (h : Same (connectionEntry a f) (connectionEntry b g)) : SameTransport a b ∧ f = g := by
  simp only [connectionEntry, same_arr, List.forall₂_cons, same_str, List.forall₂_nil_left_iff,
    and_true] at h
  obtain ⟨hfrom, hto, hplug, hmode, hprojection, hpath, hupstream⟩ := h
  exact ⟨⟨hfrom, hto, same_optionalText hplug, CollectionMode.text_injective hmode,
    same_projectionEntry hprojection, same_conversionPath hpath⟩, hupstream⟩

/-- Equality of output values; a sequence's metadata is a JSON value. -/
def SameValue : ArtifactOutputValue → ArtifactOutputValue → Prop
  | .ref a, .ref b => a = b
  | .sequence a, .sequence b =>
    a.sequenceId = b.sequenceId ∧ a.artifactType = b.artifactType ∧
    a.schemaVersion = b.schemaVersion ∧ a.itemRefs = b.itemRefs ∧ a.ordered = b.ordered ∧
    a.indexKey = b.indexKey ∧ Same (.obj a.metadata) (.obj b.metadata)
  | _, _ => False

theorem same_dumpRef {a b : ArtifactRef} (h : Same (dumpRef a) (dumpRef b)) : a = b := by
  obtain ⟨aid, atype, aversion, ahash⟩ := a
  obtain ⟨bid, btype, bversion, bhash⟩ := b
  obtain ⟨v, hv, hid⟩ := same_obj_member h (k := "artifact_id") (v := .str aid) (by simp)
  obtain ⟨w, hw, htype⟩ := same_obj_member h (k := "artifact_type") (v := .str atype) (by simp)
  obtain ⟨x, hx, hversion⟩ := same_obj_member h (k := "schema_version") (v := .int aversion)
    (by simp)
  obtain ⟨y, hy, hhash⟩ := same_obj_member h (k := "content_hash") (v := optionalText ahash)
    (by simp)
  simp at hv hw hx hy
  subst v w x y
  rw [same_str] at hid htype
  rw [same_int] at hversion
  rw [hid, htype, hversion, same_optionalText hhash]

theorem same_modelDump {a b : ArtifactOutputValue} (h : Same (modelDump a) (modelDump b)) :
    SameValue a b := by
  cases a with
  | ref a =>
    cases b with
    | ref b => exact same_dumpRef h
    | sequence b =>
      -- a sequence has no artifact id
      obtain ⟨v, hv, -⟩ := same_obj_member h (k := "artifact_id") (v := .str a.artifactId) (by simp)
      simp at hv
  | sequence a =>
    cases b with
    | ref b =>
      obtain ⟨v, hv, -⟩ := same_obj_member h (k := "sequence_id") (v := .str a.sequenceId) (by simp)
      simp at hv
    | sequence b =>
      obtain ⟨v1, hv1, hid⟩ :=
        same_obj_member h (k := "sequence_id") (v := .str a.sequenceId) (by simp)
      obtain ⟨v2, hv2, htype⟩ :=
        same_obj_member h (k := "artifact_type") (v := .str a.artifactType) (by simp)
      obtain ⟨v3, hv3, hversion⟩ :=
        same_obj_member h (k := "schema_version") (v := .int a.schemaVersion) (by simp)
      obtain ⟨v4, hv4, hitems⟩ :=
        same_obj_member h (k := "item_refs") (v := .arr (a.itemRefs.map dumpRef)) (by simp)
      obtain ⟨v5, hv5, hordered⟩ :=
        same_obj_member h (k := "ordered") (v := .bool a.ordered) (by simp)
      obtain ⟨v6, hv6, hindex⟩ :=
        same_obj_member h (k := "index_key") (v := .str a.indexKey) (by simp)
      obtain ⟨v7, hv7, hmetadata⟩ :=
        same_obj_member h (k := "metadata") (v := .obj a.metadata) (by simp)
      simp at hv1 hv2 hv3 hv4 hv5 hv6 hv7
      subst v1 v2 v3 v4 v5 v6 v7
      exact ⟨same_str.mp hid, same_str.mp htype, same_int.mp hversion,
        eq_of_same_entries (fun _ _ => same_dumpRef) hitems, same_bool.mp hordered,
        same_str.mp hindex, hmetadata⟩

structure SameOrigin (a b : GraphOrigin) : Prop where
  toPort : a.toPort = b.toPort
  toPlug : a.toPlug = b.toPlug
  value : SameValue a.value b.value
  collectionMode : a.collectionMode = b.collectionMode
  conversionPath : a.conversionPath = b.conversionPath

variable {b : GraphOrigin}

theorem same_originEntry {a : GraphOrigin} (h : Same (originEntry a) (originEntry b)) :
    SameOrigin a b := by
  simp only [originEntry, same_arr, List.forall₂_cons, same_str, List.forall₂_nil_left_iff,
    and_true] at h
  obtain ⟨hto, hplug, hvalue, hmode, hpath⟩ := h
  exact ⟨hto, same_optionalText hplug, same_modelDump (same_of_canonical_eq hvalue),
    CollectionMode.text_injective hmode, same_conversionPath hpath⟩

/-- An entry of a connection has seven items and one of an origin five. -/
theorem not_same_connection_origin : ¬ Same (connectionEntry a f) (originEntry b) := by
  intro h
  have hlength := (same_arr.mp h).length_eq
  simp at hlength

end Entries

section Sections

variable {pairs' pairs : List (Connection × Fingerprint)}

/-- The inputs of two documents agree position by position. -/
theorem same_inputs {origins origins' : List GraphOrigin}
    (h : Same (.arr (pairEntries pairs ++ origins.map originEntry)) (.arr (pairEntries pairs' ++
      origins'.map originEntry))) :
    List.Forall₂ (fun p p' => SameTransport p.1.edge p'.1.edge ∧ p.2 = p'.2) pairs pairs' ∧
    List.Forall₂ SameOrigin origins origins' := by
  rw [same_arr] at h
  induction pairs generalizing pairs' with
  | nil =>
    cases pairs' with
    | nil =>
      simp only [pairEntries, List.map_nil, List.nil_append, List.forall₂_map_left_iff,
        List.forall₂_map_right_iff] at h
      exact ⟨.nil, h.imp (fun _ _ => same_originEntry)⟩
    | cons pair' rest' =>
      cases origins with
      | nil => simp [pairEntries] at h
      | cons origin rest =>
        simp only [pairEntries, List.map_nil, List.nil_append, List.map_cons, List.cons_append,
          List.forall₂_cons] at h
        exact absurd h.1.symm not_same_connection_origin
  | cons pair rest ih =>
    cases pairs' with
    | nil =>
      cases origins' with
      | nil => simp [pairEntries] at h
      | cons origin' rest' =>
        simp only [pairEntries, List.map_nil, List.nil_append, List.map_cons, List.cons_append,
          List.forall₂_cons] at h
        exact absurd h.1 not_same_connection_origin
    | cons pair' rest' =>
      simp only [pairEntries, List.map_cons, List.cons_append, List.forall₂_cons] at h
      obtain ⟨hrest, horigins⟩ := ih h.2
      exact ⟨.cons (same_connectionEntry h.1) hrest, horigins⟩

/-- What the identity section determines of a node and its facts. -/
structure SameNode (facts : FingerprintFacts) (inst : ExpandedInstance)
    (facts' : FingerprintFacts) (inst' : ExpandedInstance) : Prop where
  kind : inst.node.kind = inst'.node.kind
  operatorId : inst.node.operatorId = inst'.node.operatorId
  operatorVersion : inst.node.operatorVersion = inst'.node.operatorVersion
  config : Same (.obj inst.node.config) (.obj inst'.node.config)
  implementation : facts.implementationDigest inst.node = facts'.implementationDigest inst'.node
  inputPlugs : fedInputPlugs inst = fedInputPlugs inst'
  artifactTypeBindings : inst.node.artifactTypeBindings = inst'.node.artifactTypeBindings
  secretRevisions : (facts.secretRevisions inst.key).Perm (facts'.secretRevisions inst'.key)
  cachePolicy : facts.cachePolicy inst.node = facts'.cachePolicy inst'.node
  refreshGeneration : facts.cachePolicy inst.node = .never →
    inst.refreshGeneration = inst'.refreshGeneration

variable {facts facts' : FingerprintFacts} {inst inst' : ExpandedInstance}

theorem revisionEntries_perm {a b : Dict String String}
    (h : Same (.obj (revisionEntries a)) (.obj (revisionEntries b))) : a.Perm b := by
  have hperm := same_obj_perm h
  simp only [revisionEntries, List.map_map] at hperm
  refine (List.map_perm_map_iff ?_).mp hperm
  rintro ⟨k, v⟩ ⟨k', v'⟩ heq
  simpa [sortKeys] using heq

section

variable (h : Same (identity facts inst) (identity facts' inst'))
include h

/-- The optional members are there on one side exactly when they are on the
other. -/
theorem same_secretRevisions :
    (facts.secretRevisions inst.key).Perm (facts'.secretRevisions inst'.key) := by
  by_cases hempty : facts.secretRevisions inst.key = []
  · by_cases hempty' : facts'.secretRevisions inst'.key = []
    · rw [hempty, hempty']
    · obtain ⟨v, hv, -⟩ := same_obj_member h.symm (k := "secret_revisions")
        (v := .obj (revisionEntries (facts'.secretRevisions inst'.key)))
        (by simp [identityMembers, hempty'])
      simp [identityMembers, hempty] at hv
  · obtain ⟨v, hv, hsame⟩ := same_obj_member h (k := "secret_revisions")
      (v := .obj (revisionEntries (facts.secretRevisions inst.key)))
      (by simp [identityMembers, hempty])
    have hv' : facts'.secretRevisions inst'.key ≠ [] ∧
        v = .obj (revisionEntries (facts'.secretRevisions inst'.key)) := by
      simpa [identityMembers] using hv
    obtain ⟨-, rfl⟩ := hv'
    exact revisionEntries_perm hsame

theorem refreshGeneration_of_same (hpolicy : facts.cachePolicy inst.node = .never) :
    facts'.cachePolicy inst'.node = .never ∧ inst.refreshGeneration = inst'.refreshGeneration := by
  obtain ⟨v, hv, hsame⟩ := same_obj_member h (k := "refresh_generation")
    (v := .int inst.refreshGeneration) (by simp [identityMembers, hpolicy])
  have hv' : facts'.cachePolicy inst'.node = .never ∧ v = .int inst'.refreshGeneration := by
    simpa [identityMembers] using hv
  obtain ⟨hpolicy', rfl⟩ := hv'
  exact ⟨hpolicy', by simpa using same_int.mp hsame⟩

theorem same_identity : SameNode facts inst facts' inst' := by
  have hmember : ∀ k v w, (k, v) ∈ identityMembers facts inst →
      (∀ u, (k, u) ∈ identityMembers facts' inst' → u = w) → Same v w := by
    intro k v w hv hw
    obtain ⟨u, hu, hsame⟩ := same_obj_member h hv
    rwa [hw u hu] at hsame
  have hkind := hmember "kind" (.str inst.node.kind.text) (.str inst'.node.kind.text)
    (by simp [identityMembers]) (by simp [identityMembers])
  have hid := hmember "operator_id" (.str inst.node.operatorId) (.str inst'.node.operatorId)
    (by simp [identityMembers]) (by simp [identityMembers])
  have hversion := hmember "operator_version" (.int inst.node.operatorVersion)
    (.int inst'.node.operatorVersion) (by simp [identityMembers]) (by simp [identityMembers])
  have hconfig := hmember "config" (.obj inst.node.config) (.obj inst'.node.config)
    (by simp [identityMembers]) (by simp [identityMembers])
  have himplementation := hmember "implementation" (.str (facts.implementationDigest inst.node))
    (.str (facts'.implementationDigest inst'.node)) (by simp [identityMembers])
    (by simp [identityMembers])
  have hplugs := hmember "input_plugs" (.arr ((fedInputPlugs inst).map plugEntry))
    (.arr ((fedInputPlugs inst').map plugEntry)) (by simp [identityMembers])
    (by simp [identityMembers])
  have hbindings := hmember "artifact_type_bindings"
    (.arr (inst.node.artifactTypeBindings.map bindingEntry))
    (.arr (inst'.node.artifactTypeBindings.map bindingEntry)) (by simp [identityMembers])
    (by simp [identityMembers])
  have hpolicy : facts.cachePolicy inst.node = facts'.cachePolicy inst'.node := by
    cases hp : facts.cachePolicy inst.node with
    | never => exact (refreshGeneration_of_same h hp).1.symm
    | exact =>
      cases hp' : facts'.cachePolicy inst'.node with
      | never =>
        rw [(refreshGeneration_of_same h.symm hp').1] at hp
        exact hp.symm
      | exact => rfl
  exact ⟨GraphNodeKind.text_injective (same_str.mp hkind), same_str.mp hid,
    by simpa using same_int.mp hversion, hconfig, same_str.mp himplementation,
    eq_of_same_entries (fun _ _ => same_plugEntry) hplugs,
    eq_of_same_entries (fun _ _ => same_bindingEntry) hbindings, same_secretRevisions h, hpolicy,
    fun hp => (refreshGeneration_of_same h hp).2⟩

end

/-- The text a fingerprint is the digest of. -/
def documentText (facts : FingerprintFacts) (inst : ExpandedInstance)
    (pairs : List (Connection × Fingerprint)) : String :=
  canonical (document facts inst
    (pairEntries pairs ++ (sortedOrigins inst.origins).map originEntry))

/-- Equal texts determine both sections. -/
theorem same_of_documentText_eq
    (h : documentText facts inst pairs = documentText facts' inst' pairs') :
    SameNode facts inst facts' inst' ∧
    List.Forall₂ (fun p p' => SameTransport p.1.edge p'.1.edge ∧ p.2 = p'.2) pairs pairs' ∧
    List.Forall₂ SameOrigin (sortedOrigins inst.origins) (sortedOrigins inst'.origins) := by
  have hdocument := same_of_canonical_eq h
  obtain ⟨v, hv, hidentity⟩ := same_obj_member hdocument (k := "identity")
    (v := identity facts inst) (by simp)
  obtain ⟨w, hw, hinputs⟩ := same_obj_member hdocument (k := "inputs")
    (v := .arr (pairEntries pairs ++ (sortedOrigins inst.origins).map originEntry)) (by simp)
  simp at hv hw
  subst v w
  exact ⟨same_identity hidentity, same_inputs hinputs⟩

end Sections

/-- Two instances that compute the same: they agree in everything a document
holds, and so do, in turn, the instances their connections read. -/
inductive Alike (graph : ExpandedGraph) (facts : FingerprintFacts) (graph' : ExpandedGraph)
    (facts' : FingerprintFacts) : InstanceKey → InstanceKey → Prop
  | intro {key key' : InstanceKey} {inst inst' : ExpandedInstance}
      (hinst : graph.instances.get? key = some inst)
      (hinst' : graph'.instances.get? key' = some inst')
      (node : SameNode facts inst facts' inst')
      (transports : List.Forall₂ (fun c c' => SameTransport c.edge c'.edge)
        inst.connections inst'.connections)
      (sources : ∀ pair ∈ inst.connections.zip inst'.connections,
        Alike graph facts graph' facts' pair.1.source pair.2.source)
      (origins : List.Forall₂ SameOrigin (sortedOrigins inst.origins)
        (sortedOrigins inst'.origins)) : Alike graph facts graph' facts' key key'

section Heredity

variable {sha256 : String → Fingerprint} {graph graph' : ExpandedGraph}
  {facts facts' : FingerprintFacts} {fps fps' : Dict InstanceKey Fingerprint}
  {pairs' pairs : List (Connection × Fingerprint)}

/-- Connections in corresponding positions read equal fingerprints. -/
theorem zip_reads
    (h : List.Forall₂ (fun p p' => SameTransport p.1.edge p'.1.edge ∧ p.2 = p'.2) pairs pairs') :
    ∀ c c', (c, c') ∈ (pairs.map Prod.fst).zip (pairs'.map Prod.fst) →
      ∃ f, (c, f) ∈ pairs ∧ (c', f) ∈ pairs' := by
  induction h with
  | nil => simp
  | @cons p p' rest rest' hhead _ ih =>
    intro c c' hmem
    simp only [List.map_cons, List.zip_cons_cons, List.mem_cons, Prod.mk.injEq] at hmem
    rcases hmem with ⟨rfl, rfl⟩ | hrest
    · refine ⟨p.2, List.mem_cons_self .., ?_⟩
      rw [hhead.2]
      exact List.mem_cons_self ..
    · obtain ⟨f, hf, hf'⟩ := ih c c' hrest
      exact ⟨f, List.mem_cons_of_mem _ hf, List.mem_cons_of_mem _ hf'⟩

/-- The texts the fingerprints of a graph are digests of. -/
def documentTexts (graph : ExpandedGraph) (facts : FingerprintFacts)
    (fps : Dict InstanceKey Fingerprint) : Set String :=
  { text | ∃ key inst pairs, graph.instances.get? key = some inst ∧
      Reads graph fps inst.connections pairs ∧ text = documentText facts inst pairs }

theorem exists_read
    (h : List.Forall₂ (fun p p' => SameTransport p.1.edge p'.1.edge ∧ p.2 = p'.2) pairs pairs')
    {pair : Connection × Fingerprint} (hpair : pair ∈ pairs) :
    ∃ pair' ∈ pairs', pair.2 = pair'.2 := by
  induction h with
  | nil => simp at hpair
  | @cons p p' rest rest' hhead _ ih =>
    rcases List.mem_cons.mp hpair with rfl | hrest
    · exact ⟨p', List.mem_cons_self .., hhead.2⟩
    · obtain ⟨pair', hpair', heq⟩ := ih hrest
      exact ⟨pair', List.mem_cons_of_mem _ hpair', heq⟩

/-- Instances with one fingerprint read the same fingerprints. -/
theorem source_of_fingerprint_eq (h : Fingerprinted sha256 graph facts fps)
    (hfree : Set.InjOn sha256 (documentTexts graph facts fps)) {key key' source : InstanceKey}
    {f : Fingerprint} (hkey : fps.get? key = some f) (hkey' : fps.get? key' = some f)
    (hsource : source ∈ graph.sources key) :
    ∃ g, fps.get? source = some g ∧ ∃ source' ∈ graph.sources key', fps.get? source' = some g := by
  obtain ⟨inst, pairs, hinst, hreads, rfl⟩ := h.get hkey
  obtain ⟨inst', pairs', hinst', hreads', heq⟩ := h.get hkey'
  have htext : documentText facts inst pairs = documentText facts inst' pairs' :=
    hfree ⟨key, inst, pairs, hinst, hreads, rfl⟩ ⟨key', inst', pairs', hinst', hreads', rfl⟩ heq
  obtain ⟨-, hpairs, -⟩ := same_of_documentText_eq htext
  have hmem : source ∈ pairs.map (fun pair => pair.1.source) := by
    rw [ExpandedGraph.sources_eq hinst, ← hreads.fst, List.map_map] at hsource
    exact hsource
  obtain ⟨pair, hpair, rfl⟩ := List.mem_map.mp hmem
  obtain ⟨pair', hpair', hupstream⟩ := exists_read hpairs hpair
  refine ⟨pair.2, hreads.source pair hpair, pair'.1.source, ?_, ?_⟩
  · rw [ExpandedGraph.sources_eq hinst', ← hreads'.fst, List.map_map]
    exact List.mem_map_of_mem (f := Connection.source ∘ Prod.fst) hpair'
  · rw [hupstream]
    exact hreads'.source pair' hpair'

section

variable (hsha : Function.Injective sha256) (h : Fingerprinted sha256 graph facts fps)
  (h' : Fingerprinted sha256 graph' facts' fps')
include hsha h h'

/-- The induction is on how far down the first map the entry stands: what an
entry reads stands before it. -/
private theorem alike_of_position (n : ℕ) :
    ∀ pre key f post, pre.length = n → fps = pre ++ (key, f) :: post →
      ∀ key', fps'.get? key' = some f → Alike graph facts graph' facts' key key' := by
  induction n using Nat.strong_induction_on with
  | _ n ih =>
    intro pre key f post hn hsplit key' hkey'
    obtain ⟨inst, pairs, hinst, hreads, rfl⟩ := h.entry pre key f post hsplit
    obtain ⟨inst', pairs', hinst', hreads', heq⟩ := h'.get hkey'
    obtain ⟨hnode, hinputs, horigins⟩ := same_of_documentText_eq (hsha heq)
    refine .intro hinst hinst' hnode ?_ ?_ horigins
    · rw [← hreads.fst, ← hreads'.fst, List.forall₂_map_left_iff, List.forall₂_map_right_iff]
      exact hinputs.imp (fun _ _ hp => hp.1)
    · rintro ⟨c, c'⟩ hmem
      rw [← hreads.fst, ← hreads'.fst] at hmem
      obtain ⟨g, hg, hg'⟩ := zip_reads hinputs c c' hmem
      -- the source's entry stands in the part before this one
      obtain ⟨pre', mid, hpre⟩ := Dict.exists_split_of_get? (hreads.source _ hg)
      have hlength : pre'.length < n := by
        rw [← hn, hpre]
        simp
      have hsplit' : fps = pre' ++ (c.source, g) ::
          (mid ++ (key, digest sha256 facts inst pairs) :: post) := by
        rw [hsplit, hpre]
        simp
      exact ih pre'.length hlength pre' c.source g _ rfl hsplit' c'.source (hreads'.source _ hg')

theorem alike_of_fingerprinted {key key' : InstanceKey} {f : Fingerprint}
    (hkey : fps.get? key = some f) (hkey' : fps'.get? key' = some f) :
    Alike graph facts graph' facts' key key' := by
  obtain ⟨pre, post, hsplit⟩ := Dict.exists_split_of_get? hkey
  exact alike_of_position hsha h h' pre.length pre key f post rfl hsplit key' hkey'

end

end Heredity

section Example

def plainFacts : FingerprintFacts := ⟨fun node => node.operatorId, fun _ => .exact, fun _ => []⟩

def keyOf (id : String) : InstanceKey := ⟨"project", "graph", [], id, none⟩

def loaderOf (id : String) : ExpandedInstance :=
  ⟨keyOf id, { (default : GraphNode) with id := id, operatorId := "load" }, [], [], 0⟩

def feedOf (loader filter : String) : Connection :=
  ⟨keyOf loader, ⟨"edge", true, loader, "out", filter, "in", none, .direct, none, [], none⟩⟩

def filterOf (loader filter : String) : ExpandedInstance :=
  ⟨keyOf filter, { (default : GraphNode) with id := filter, operatorId := "filter" },
    [feedOf loader filter], [], 0⟩

/-- A loader feeding a filter, under ids of the caller's choice. -/
def loaderAndFilter (loader filter : String) : ExpandedGraph :=
  ⟨"project", "graph", [(keyOf loader, loaderOf loader), (keyOf filter, filterOf loader filter)],
    [keyOf loader, keyOf filter]⟩

theorem loaderAndFilter_fingerprints {loader filter : String} (h : loader ≠ filter) :
    computeFingerprints id (loaderAndFilter loader filter) plainFacts =
      .ok [(keyOf loader, digest id plainFacts (loaderOf loader) []),
        (keyOf filter, digest id plainFacts (filterOf loader filter)
          [(feedOf loader filter, digest id plainFacts (loaderOf loader) [])])] := by
  simp [computeFingerprints, loaderAndFilter, fingerprintOrder, Dict.get?, Dict.set, loaderOf,
    filterOf, feedOf, keyOf, inputs, connectionEntries, Except.map, digest, pairEntries, h]

end Example

end Grafy.Fingerprints
