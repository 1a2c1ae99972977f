import Grafy.Alignment
import Grafy.FingerprintInjectivity

/-!
Fingerprints depend on nothing but what enters their documents. A relation
between the instances of two graphs that pairs nodes, transports and origins
that digest alike, and whose paired connections read paired instances, pairs
equal fingerprints. The walk over a topological order never fails, so every
instance of such a graph has a fingerprint.
-/
namespace Grafy.Fingerprints

open CanonicalJson GraphDocuments Instances OrderedDict Results

variable {R : InstanceKey → InstanceKey → Prop} {connections connections' : List Connection}
  {pairs pairs' : List (Connection × Fingerprint)}

section Documents

variable {facts facts' : FingerprintFacts} {inst inst' : ExpandedInstance}
  {R : InstanceKey → InstanceKey → Prop}

/-- Two instances whose documents agree once their connections read the same
fingerprints; the relation says which sources are paired. -/
structure Agree (R : InstanceKey → InstanceKey → Prop) (facts : FingerprintFacts)
    (inst : ExpandedInstance) (facts' : FingerprintFacts) (inst' : ExpandedInstance) : Prop where
  kind : inst.node.kind = inst'.node.kind
  operatorId : inst.node.operatorId = inst'.node.operatorId
  operatorVersion : inst.node.operatorVersion = inst'.node.operatorVersion
  config : inst.node.config = inst'.node.config
  implementation : facts.implementationDigest inst.node = facts'.implementationDigest inst'.node
  inputPlugs : inst.node.inputPlugs = inst'.node.inputPlugs
  artifactTypeBindings : inst.node.artifactTypeBindings = inst'.node.artifactTypeBindings
  secretRevisions : facts.secretRevisions inst.key = facts'.secretRevisions inst'.key
  cachePolicy : facts.cachePolicy inst.node = facts'.cachePolicy inst'.node
  refreshGeneration : inst.refreshGeneration = inst'.refreshGeneration
  connections : List.Forall₂ (fun c c' => SameTransport c.edge c'.edge ∧ R c.source c'.source)
    inst.connections inst'.connections
  origins : List.Forall₂ SameOrigin inst.origins inst'.origins

theorem canonical_eq_of_sameValue {a b : ArtifactOutputValue} (h : SameValue a b) :
    canonical (modelDump a) = canonical (modelDump b) := by
  cases a with
  | ref a =>
    cases b with
    | ref b =>
      obtain rfl : a = b := h
      rfl
    | sequence b => exact absurd h (by simp [SameValue])
  | sequence a =>
    cases b with
    | ref b => exact absurd h (by simp [SameValue])
    | sequence b =>
      obtain ⟨aid, atype, aversion, aitems, aordered, aindex, ametadata⟩ := a
      obtain ⟨bid, btype, bversion, bitems, bordered, bindex, bmetadata⟩ := b
      obtain ⟨hid, htype, hversion, hitems, hordered, hindex, hmetadata⟩ := h
      simp only at hid htype hversion hitems hordered hindex hmetadata
      subst hid htype hversion hitems hordered hindex
      simp only [Same, sortKeys, Json.obj.injEq] at hmetadata
      simp only [canonical, modelDump, sortKeys, sortKeysMembers, hmetadata]

theorem originEntry_eq {a b : GraphOrigin} (h : SameOrigin a b) :
    originEntry a = originEntry b := by
  unfold originEntry
  rw [h.toPort, h.toPlug, canonical_eq_of_sameValue h.value, h.collectionMode, h.conversionPath]

theorem originEntries_eq {origins origins' : List GraphOrigin}
    (h : List.Forall₂ SameOrigin origins origins') :
    (sortedOrigins origins).map originEntry = (sortedOrigins origins').map originEntry := by
  have hsorted : List.Forall₂ SameOrigin (sortedOrigins origins) (sortedOrigins origins') := by
    refine Alignment.insertionSort ?_ h
    intro a b a' b' hab hab'
    simp [originSlot, hab.toPort, hab.toPlug, hab'.toPort, hab'.toPlug]
  exact Alignment.map_eq hsorted (fun a b hab => originEntry_eq hab)

theorem filterMap_toPlug_eq
    (h : List.Forall₂ (fun c c' => SameTransport c.edge c'.edge ∧ R c.source c'.source) connections
      connections') :
    connections.filterMap (fun c => c.edge.toPlug) = connections'.filterMap
      (fun c => c.edge.toPlug) := by
  have hplugs := Alignment.map_eq h (fun c c' hc => hc.1.toPlug)
  have hmap : ∀ l : List Connection, l.filterMap (fun c => c.edge.toPlug) =
      (l.map (fun c => c.edge.toPlug)).filterMap id := by
    intro l
    rw [List.filterMap_map]
    rfl
  rw [hmap, hmap, hplugs]

theorem Agree.fedPlugs (h : Agree R facts inst facts' inst') : fedPlugs inst = fedPlugs inst' := by
  have horigins := Alignment.map_eq h.origins (fun a b hab => hab.toPlug)
  have hmap : ∀ l : List GraphOrigin, l.filterMap (fun o => o.toPlug) =
      (l.map (fun o => o.toPlug)).filterMap id := by
    intro l
    rw [List.filterMap_map]
    rfl
  unfold Fingerprints.fedPlugs
  rw [filterMap_toPlug_eq h.connections, hmap, hmap, horigins]

theorem Agree.identity (h : Agree R facts inst facts' inst') :
    identity facts inst = identity facts' inst' := by
  unfold Fingerprints.identity identityMembers fedInputPlugs
  simp only [h.kind, h.operatorId, h.operatorVersion, h.config, h.implementation, h.inputPlugs,
    h.artifactTypeBindings, h.secretRevisions, h.cachePolicy, h.refreshGeneration, h.fedPlugs]

theorem pairEntries_eq
    (h : List.Forall₂ (fun p p' => SameTransport p.1.edge p'.1.edge ∧ p.2 = p'.2) pairs pairs') :
    pairEntries pairs = pairEntries pairs' := by
  refine Alignment.map_eq h ?_
  rintro p p' ⟨htransport, hupstream⟩
  unfold connectionEntry
  rw [htransport.fromPort, htransport.toPort, htransport.toPlug, htransport.collectionMode,
    htransport.projection, htransport.conversionPath, hupstream]

/-- Agreeing instances that read the same fingerprints digest alike. -/
theorem Agree.digest {R : InstanceKey → InstanceKey → Prop} (h : Agree R facts inst facts' inst')
    (sha256 : String → Fingerprint) {pairs pairs' : List (Connection × Fingerprint)}
    (hpairs : List.Forall₂ (fun p p' => SameTransport p.1.edge p'.1.edge ∧
      p.2 = p'.2) pairs pairs') :
    digest sha256 facts inst pairs = digest sha256 facts' inst' pairs' := by
  unfold Fingerprints.digest document
  rw [h.identity, pairEntries_eq hpairs, originEntries_eq h.origins]

end Documents

variable {graph : ExpandedGraph} {fps : Dict InstanceKey Fingerprint}

section Simulation

variable {sha256 : String → Fingerprint} {graph' : ExpandedGraph} {facts facts' : FingerprintFacts}
  {fps' : Dict InstanceKey Fingerprint}

/-- Paired connections whose paired sources have equal fingerprints read them. -/
theorem forall₂_reads {reading : Dict InstanceKey Fingerprint}
    (h : List.Forall₂ (fun c c' => SameTransport c.edge c'.edge ∧ R c.source c'.source) connections
      connections') (hreads : Reads graph reading connections pairs)
    (hreads' : Reads graph' fps' connections' pairs')
    (hR : ∀ source source' f, R source source' → reading.get? source = some f → fps'.get? source' =
      some f) :
    List.Forall₂ (fun p p' => SameTransport p.1.edge p'.1.edge ∧ p.2 = p'.2) pairs pairs' := by
  induction h generalizing pairs pairs' with
  | nil =>
    cases hreads
    cases hreads'
    exact .nil
  | cons hc _ ih =>
    cases hreads with
    | cons _ hupstream hrest =>
      cases hreads' with
      | cons _ hupstream' hrest' =>
        have hsame := hR _ _ _ hc.2 hupstream
        rw [hupstream'] at hsame
        exact .cons ⟨hc.1, (Option.some.inj hsame).symm⟩ (ih hrest hrest')

/-- A relation that pairs agreeing instances, or instances known to have the
same fingerprint, pairs equal fingerprints. -/
theorem fingerprint_eq_of_simulation (h : Fingerprinted sha256 graph facts fps)
    (h' : Fingerprinted sha256 graph' facts' fps')
    (hall : ∀ key inst, graph'.instances.get? key = some inst → (fps'.get? key).isSome)
    (hstep : ∀ key key', R key key' → fps.get? key = fps'.get? key' ∨ ∃ inst inst',
      graph.instances.get? key = some inst ∧ graph'.instances.get? key' = some inst' ∧ Agree R facts
      inst facts' inst') {key key' : InstanceKey} {f : Fingerprint} (hR : R key key')
    (hkey : fps.get? key = some f) :
    fps'.get? key' = some f := by
  -- the induction is on how far down the first map the entry stands
  suffices hgen : ∀ (n : ℕ) pre key f post, pre.length = n → fps = pre ++ (key, f) :: post →
      ∀ key', R key key' → fps'.get? key' = some f by
    obtain ⟨pre, post, hsplit⟩ := Dict.exists_split_of_get? hkey
    exact hgen pre.length pre key f post rfl hsplit key' hR
  intro n
  induction n using Nat.strong_induction_on with
  | _ n ih =>
    intro pre key f post hn hsplit key' hR
    rcases hstep key key' hR with heq | ⟨inst, inst', hinst, hinst', hagree⟩
    · have hget : fps.get? key = some f := Dict.get?_of_mem h.nodup (by rw [hsplit]; simp)
      rw [← heq, hget]
    · obtain ⟨inst₀, pairs, hinst₀, hreads, rfl⟩ := h.entry pre key f post hsplit
      cases hinst.symm.trans hinst₀
      obtain ⟨f', hf'⟩ := Option.isSome_iff_exists.mp (hall key' inst' hinst')
      obtain ⟨inst₁, pairs', hinst₁, hreads', rfl⟩ := h'.get hf'
      cases hinst'.symm.trans hinst₁
      have hpairs := forall₂_reads hagree.connections hreads hreads' (by
        intro source source' g hsource hread
        obtain ⟨before, after, hpre⟩ := Dict.exists_split_of_get? hread
        have hshorter : before.length < n := by
          rw [← hn, hpre]
          simp
        refine ih before.length hshorter before source g (after ++
          (key, digest sha256 facts inst pairs)
          :: post) rfl ?_ source' hsource
        rw [hsplit, hpre]
        simp)
      rw [hf', hagree.digest sha256 hpairs]

end Simulation

section Totality

theorem reads_exists (connections : List Connection)
    (h : ∀ connection ∈ connections, (graph.instances.get? connection.source).isSome ∧ (fps.get?
      connection.source).isSome) : ∃ pairs, Reads graph fps connections pairs := by
  induction connections with
  | nil => exact ⟨[], .nil⟩
  | cons connection rest ih =>
    obtain ⟨hinst, hfps⟩ := h connection (List.mem_cons_self ..)
    obtain ⟨upstream, hupstream⟩ := Option.isSome_iff_exists.mp hfps
    obtain ⟨pairs, hpairs⟩ := ih (fun c hc => h c (List.mem_cons_of_mem _ hc))
    exact ⟨(connection, upstream) :: pairs, .cons hinst hupstream hpairs⟩

/-- A topological order is walked to its end. -/
theorem computeFingerprints_exists (sha256 : String → Fingerprint) (facts : FingerprintFacts)
    (htopological : graph.Topological)
    (hclosed : ∀ {key inst}, graph.instances.get? key = some inst →
      ∀ connection ∈ inst.connections, (graph.instances.get? connection.source).isSome) :
    ∃ fps, computeFingerprints sha256 graph facts = .ok fps := by
  suffices hgen : ∀ (rest before : List InstanceKey) (fps : Dict InstanceKey Fingerprint),
      graph.order = before ++ rest → (∀ key ∈ before, (fps.get? key).isSome) →
      ∃ fps', fingerprintOrder sha256 graph facts rest fps = .ok fps' by
    exact hgen graph.order [] [] rfl (by simp)
  intro rest
  induction rest with
  | nil => exact fun _ fps _ _ => ⟨fps, rfl⟩
  | cons key rest ih =>
    intro before fps horder hbefore
    obtain ⟨inst, hinst⟩ := (htopological.covers key).mp (by rw [horder]; simp)
    have hsources : ∀ connection ∈ inst.connections,
        (graph.instances.get? connection.source).isSome ∧ (fps.get? connection.source).isSome := by
      intro connection hconnection
      refine ⟨hclosed hinst connection hconnection, hbefore _ ?_⟩
      refine htopological.sourcesBefore before key rest horder _ ?_
      rw [ExpandedGraph.sources_eq hinst]
      exact List.mem_map.mpr ⟨connection, hconnection, rfl⟩
    obtain ⟨pairs, hreads⟩ := reads_exists inst.connections hsources
    rw [fingerprintOrder_cons rest hinst hreads]
    refine ih (before ++ [key]) _ (by rw [horder]; simp) ?_
    intro k hk
    rw [Dict.get?_set]
    split_ifs with heq
    · rfl
    · rcases List.mem_append.mp hk with hk | hk
      · exact hbefore k hk
      · exact absurd (List.mem_singleton.mp hk) heq

end Totality

end Grafy.Fingerprints
