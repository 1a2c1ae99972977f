import Grafy.Results

/-!
Node fingerprints: the address a result is stored under. A fingerprint is the
digest of a canonical JSON document with two sections, what the node runs as
and what arrives at its inputs, where an incoming connection carries the
fingerprint of the instance it reads. The digest function is a parameter. A
walk of the order that succeeds leaves a map in which every entry is the
digest of a document over the entries before it.
-/
namespace Grafy.Fingerprints

open CanonicalJson GraphDocuments Instances OrderedDict Results

inductive NodeCachePolicy
  | never
  | exact
  deriving DecidableEq

structure FingerprintFacts where
  implementationDigest : GraphNode → String
  cachePolicy : GraphNode → NodeCachePolicy
  secretRevisions : InstanceKey → Dict String String

section Documents

def optionalText : Option String → Json
  | none => .null
  | some text => .str text

/-- Input plug ids this instance's connections and origins actually feed. -/
def fedPlugs (inst : ExpandedInstance) : List String :=
  inst.connections.filterMap (fun connection => connection.edge.toPlug) ++
    inst.origins.filterMap (fun origin => origin.toPlug)

/-- The node's own plugs in its own order, restricted to the fed ones. -/
def fedInputPlugs (inst : ExpandedInstance) : List GraphInputPlug :=
  inst.node.inputPlugs.filter (fun plug => plug.id ∈ fedPlugs inst)

def plugEntry (plug : GraphInputPlug) : Json := .arr [.str plug.id, .str plug.port]

def bindingEntry (binding : GraphArtifactTypeBinding) : Json :=
  .arr [.str binding.typeVariable, .str binding.artifactType.id,
    .int binding.artifactType.schemaVersion]

def revisionEntries (revisions : Dict String String) : List (String × Json) :=
  revisions.map (fun entry => (entry.1, .str entry.2))

def identityMembers (facts : FingerprintFacts) (inst : ExpandedInstance) : List (String × Json) :=
  let node := inst.node
  let revisions := facts.secretRevisions inst.key
  [("kind", .str node.kind.text),
    ("operator_id", .str node.operatorId),
    ("operator_version", .int node.operatorVersion),
    ("config", .obj node.config),
    ("implementation", .str (facts.implementationDigest node)),
    ("input_plugs", .arr ((fedInputPlugs inst).map plugEntry)),
    ("artifact_type_bindings", .arr (node.artifactTypeBindings.map bindingEntry))] ++
  (if revisions = [] then [] else [("secret_revisions", .obj (revisionEntries revisions))]) ++
  (if facts.cachePolicy node = .never then
    [("refresh_generation", .int inst.refreshGeneration)] else [])

def identity (facts : FingerprintFacts) (inst : ExpandedInstance) : Json :=
  .obj (identityMembers facts inst)

def conversionEntry (step : GraphConversion) : Json := .arr [.str step.id, .int step.version]

def conversionPath (path : List GraphConversion) : Json := .arr (path.map conversionEntry)

def projectionEntry : Option GraphProjection → Json
  | none => .null
  | some projection => .arr (projection.path.map .str)

def connectionEntry (edge : GraphEdge) (upstream : Fingerprint) : Json :=
  .arr [.str edge.fromPort, .str edge.toPort, optionalText edge.toPlug,
    .str edge.collectionMode.text, projectionEntry edge.projection,
    conversionPath edge.conversionPath, .str upstream]

def dumpRef (ref : ArtifactRef) : Json :=
  .obj [("artifact_id", .str ref.artifactId), ("artifact_type", .str ref.artifactType),
    ("schema_version", .int ref.schemaVersion), ("content_hash", optionalText ref.contentHash)]

/-- `model_dump(mode="json")` of an origin's value. -/
def modelDump : ArtifactOutputValue → Json
  | .ref ref => dumpRef ref
  | .sequence refs =>
    .obj [("sequence_id", .str refs.sequenceId), ("artifact_type", .str refs.artifactType),
      ("schema_version", .int refs.schemaVersion), ("item_refs", .arr (refs.itemRefs.map dumpRef)),
      ("ordered", .bool refs.ordered), ("index_key", .str refs.indexKey),
      ("metadata", .obj refs.metadata)]

def originEntry (origin : GraphOrigin) : Json :=
  .arr [.str origin.toPort, optionalText origin.toPlug, .str (canonical (modelDump origin.value)),
    .str origin.collectionMode.text, conversionPath origin.conversionPath]

/-- The order of Python tuples of two strings. -/
def PairLE (a b : String × String) : Prop := a.1 < b.1 ∨ (a.1 = b.1 ∧ a.2 ≤ b.2)

instance (a b : String × String) : Decidable (PairLE a b) := inferInstanceAs (Decidable (_ ∨ _))

def originSlot (origin : GraphOrigin) : String × String := (origin.toPort, origin.toPlug.getD "")

/-- A stable sort: origins of one slot keep their order. -/
def sortedOrigins (origins : List GraphOrigin) : List GraphOrigin :=
  origins.insertionSort (fun a b => PairLE (originSlot a) (originSlot b))

def document (facts : FingerprintFacts) (inst : ExpandedInstance) (entries : List Json) : Json :=
  .obj [("identity", identity facts inst), ("inputs", .arr entries)]

end Documents

/-- The ValueErrors, by the instance they name and the source it reads. -/
inductive FingerprintError
  | notInstance (key : InstanceKey)
  | foreignSource (key source : InstanceKey)
  | uncomputedSource (key source : InstanceKey)
  deriving DecidableEq

section Walk

variable (sha256 : String → Fingerprint) (graph : ExpandedGraph) (facts : FingerprintFacts)

def connectionEntries (fingerprints : Dict InstanceKey Fingerprint) (key : InstanceKey) :
    List Connection → Except FingerprintError (List Json)
  | [] => .ok []
  | connection :: rest =>
    match graph.instances.get? connection.source with
    | none => .error (.foreignSource key connection.source)
    | some _ =>
      match fingerprints.get? connection.source with
      | none => .error (.uncomputedSource key connection.source)
      | some upstream =>
        (connectionEntries fingerprints key rest).map
          (connectionEntry connection.edge upstream :: ·)

def inputs (fingerprints : Dict InstanceKey Fingerprint) (inst : ExpandedInstance) :
    Except FingerprintError (List Json) :=
  (connectionEntries graph fingerprints inst.key inst.connections).map
    (· ++ (sortedOrigins inst.origins).map originEntry)

def fingerprintOrder : List InstanceKey → Dict InstanceKey Fingerprint →
    Except FingerprintError (Dict InstanceKey Fingerprint)
  | [], fingerprints => .ok fingerprints
  | key :: rest, fingerprints =>
    match graph.instances.get? key with
    | none => .error (.notInstance key)
    | some inst =>
      match inputs graph fingerprints inst with
      | .error e => .error e
      | .ok entries =>
        fingerprintOrder rest
          (fingerprints.set key (sha256 (canonical (document facts inst entries))))

def computeFingerprints : Except FingerprintError (Dict InstanceKey Fingerprint) :=
  fingerprintOrder sha256 graph facts graph.order []

end Walk

variable {fps fps' : Dict InstanceKey Fingerprint} {pairs : List (Connection × Fingerprint)}
  {inst : ExpandedInstance}

section Reading

variable {graph : ExpandedGraph} {entries : List Json}

/-- Lookups that succeed in the first map give the same in the second. -/
def Refines (fps fps' : Dict InstanceKey Fingerprint) : Prop :=
  ∀ key f, fps.get? key = some f → fps'.get? key = some f

/-- A list of connections is read when every source has a fingerprint. -/
inductive Reads (graph : ExpandedGraph) (fps : Dict InstanceKey Fingerprint) :
    List Connection → List (Connection × Fingerprint) → Prop
  | nil : Reads graph fps [] []
  | cons {connection : Connection} {rest : List Connection}
      {upstream : Fingerprint} {pairs : List (Connection × Fingerprint)}
      (hinstance : (graph.instances.get? connection.source).isSome)
      (hupstream : fps.get? connection.source = some upstream)
      (hrest : Reads graph fps rest pairs) :
      Reads graph fps (connection :: rest) ((connection, upstream) :: pairs)

namespace Reads

variable {connections : List Connection}

theorem mono (h : Reads graph fps connections pairs) (hfps : Refines fps fps') :
    Reads graph fps' connections pairs := by
  induction h with
  | nil => exact .nil
  | cons hinstance hupstream _ ih => exact .cons hinstance (hfps _ _ hupstream) ih

theorem fst (h : Reads graph fps connections pairs) : pairs.map Prod.fst = connections := by
  induction h with
  | nil => rfl
  | cons _ _ _ ih => simp [ih]

theorem source (h : Reads graph fps connections pairs) :
    ∀ pair ∈ pairs, fps.get? pair.1.source = some pair.2 := by
  induction h with
  | nil => simp
  | cons _ hupstream _ ih =>
    intro pair hpair
    rcases List.mem_cons.mp hpair with rfl | hrest
    · exact hupstream
    · exact ih pair hrest

theorem unique {pairs' : List (Connection × Fingerprint)} (h : Reads graph fps connections pairs)
    (h' : Reads graph fps connections pairs') : pairs = pairs' := by
  induction h generalizing pairs' with
  | nil =>
    cases h'
    rfl
  | cons _ hupstream _ ih =>
    cases h' with
    | cons _ hupstream' hrest' =>
      rw [ih hrest', Option.some.inj (hupstream.symm.trans hupstream')]

end Reads

/-- The entries of what is read. -/
def pairEntries (pairs : List (Connection × Fingerprint)) : List Json :=
  pairs.map (fun pair => connectionEntry pair.1.edge pair.2)

theorem connectionEntries_ok (key : InstanceKey) (connections : List Connection) :
    connectionEntries graph fps key connections = .ok entries ↔
      ∃ pairs, Reads graph fps connections pairs ∧ entries = pairEntries pairs := by
  induction connections generalizing entries with
  | nil =>
    constructor
    · intro h
      obtain rfl : [] = entries := by simpa [connectionEntries] using h
      exact ⟨[], .nil, rfl⟩
    · rintro ⟨pairs, hreads, rfl⟩
      cases hreads
      rfl
  | cons connection rest ih =>
    constructor
    · intro h
      simp only [connectionEntries] at h
      split at h
      · simp at h
      · rename_i hinstance
        split at h
        · simp at h
        · rename_i upstream hupstream
          cases hrest : connectionEntries graph fps key rest with
          | error e => simp [hrest, Except.map] at h
          | ok entries' =>
            obtain ⟨pairs, hreads, rfl⟩ := ih.mp hrest
            obtain rfl : _ = entries := by simpa [hrest, Except.map] using h
            exact ⟨(connection, upstream) :: pairs,
              .cons (by simp [hinstance]) hupstream hreads, rfl⟩
    · rintro ⟨pairs, hreads, rfl⟩
      cases hreads with
      | cons hinstance hupstream hrest =>
        obtain ⟨inst, hinst⟩ := Option.isSome_iff_exists.mp hinstance
        have hentries := ih.mpr ⟨_, hrest, rfl⟩
        simp [connectionEntries, hinst, hupstream, hentries, Except.map, pairEntries]

theorem inputs_ok :
    inputs graph fps inst = .ok entries ↔
      ∃ pairs, Reads graph fps inst.connections pairs ∧
        entries = pairEntries pairs ++ (sortedOrigins inst.origins).map originEntry := by
  unfold inputs
  cases h : connectionEntries graph fps inst.key inst.connections with
  | error e =>
    simp only [Except.map, reduceCtorEq, false_iff, not_exists, not_and]
    intro pairs hreads
    have hok := (connectionEntries_ok inst.key inst.connections).mpr ⟨pairs, hreads, rfl⟩
    rw [h] at hok
    simp at hok
  | ok entries' =>
    obtain ⟨pairs, hreads, rfl⟩ := (connectionEntries_ok inst.key inst.connections).mp h
    simp only [Except.map, Except.ok.injEq]
    constructor
    · rintro rfl
      exact ⟨pairs, hreads, rfl⟩
    · rintro ⟨pairs', hreads', rfl⟩
      rw [hreads.unique hreads']

end Reading

variable {key : InstanceKey}

section Digests

variable {sha256 : String → Fingerprint} {graph : ExpandedGraph} {facts : FingerprintFacts}

/-- The fingerprint of an instance whose connections read these fingerprints. -/
def digest (sha256 : String → Fingerprint) (facts : FingerprintFacts) (inst : ExpandedInstance)
    (pairs : List (Connection × Fingerprint)) : Fingerprint :=
  sha256 (canonical (document facts inst
    (pairEntries pairs ++ (sortedOrigins inst.origins).map originEntry)))

/-- Every entry is the digest of its instance over the entries before it. -/
structure Fingerprinted (sha256 : String → Fingerprint) (graph : ExpandedGraph)
    (facts : FingerprintFacts) (fps : Dict InstanceKey Fingerprint) : Prop where
  nodup : fps.keys.Nodup
  entry : ∀ pre key f post, fps = pre ++ (key, f) :: post →
    ∃ inst pairs, graph.instances.get? key = some inst ∧
      Reads graph pre inst.connections pairs ∧ f = digest sha256 facts inst pairs

theorem refines_append (pre post : Dict InstanceKey Fingerprint) : Refines pre (pre ++ post) := by
  intro key f h
  rw [Dict.get?_append, h]
  rfl

namespace Fingerprinted

theorem get (h : Fingerprinted sha256 graph facts fps) {f : Fingerprint}
    (hget : fps.get? key = some f) :
    ∃ inst pairs, graph.instances.get? key = some inst ∧
      Reads graph fps inst.connections pairs ∧ f = digest sha256 facts inst pairs := by
  obtain ⟨pre, post, rfl⟩ := Dict.exists_split_of_get? hget
  obtain ⟨inst, pairs, hinst, hreads, hf⟩ := h.entry pre key f post rfl
  exact ⟨inst, pairs, hinst, hreads.mono (refines_append _ _), hf⟩

theorem nil : Fingerprinted sha256 graph facts [] := by
  refine ⟨by simp [Dict.keys], ?_⟩
  intro pre key f post h
  simp at h

/-- One step of the walk: a new instance is appended, and an instance met a
second time gets the fingerprint it already has. -/
theorem set (h : Fingerprinted sha256 graph facts fps) {inst : ExpandedInstance}
    {pairs : List (Connection × Fingerprint)} (hinst : graph.instances.get? key = some inst)
    (hreads : Reads graph fps inst.connections pairs) :
    Fingerprinted sha256 graph facts (fps.set key (digest sha256 facts inst pairs)) ∧
      Refines fps (fps.set key (digest sha256 facts inst pairs)) := by
  cases hget : fps.get? key with
  | some f =>
    obtain ⟨inst', pairs', hinst', hreads', rfl⟩ := h.get hget
    cases hinst.symm.trans hinst'
    rw [hreads'.unique hreads] at hget
    rw [Dict.set_eq_self hget]
    exact ⟨h, fun _ _ hf => hf⟩
  | none =>
    rw [Dict.set_of_get?_none hget]
    refine ⟨⟨?_, ?_⟩, refines_append _ _⟩
    · have hset := Dict.keys_set_nodup h.nodup key (digest sha256 facts inst pairs)
      rwa [Dict.set_of_get?_none hget] at hset
    · intro pre key' f post heq
      rcases List.append_eq_append_iff.mp heq with ⟨mid, hpre, hpost⟩ | ⟨mid, hfps, hpost⟩
      · -- the entry is the new one
        cases mid with
        | nil =>
          obtain ⟨hentry, -⟩ := List.cons.inj hpost
          cases hentry
          rw [List.append_nil] at hpre
          exact ⟨inst, pairs, hinst, hpre ▸ hreads, rfl⟩
        | cons first mid =>
          have hlen := congrArg List.length hpost
          simp at hlen
      · cases mid with
        | nil =>
          obtain ⟨hentry, -⟩ := List.cons.inj hpost
          cases hentry
          rw [List.append_nil] at hfps
          exact ⟨inst, pairs, hinst, hfps ▸ hreads, rfl⟩
        | cons first mid =>
          cases hpost
          exact h.entry pre key' f mid hfps

end Fingerprinted

/-- One step of the walk over an instance whose sources have been met. -/
theorem fingerprintOrder_cons {key : InstanceKey} {inst : ExpandedInstance}
    {fps : Dict InstanceKey Fingerprint} {pairs : List (Connection × Fingerprint)}
    (rest : List InstanceKey) (hinst : graph.instances.get? key = some inst)
    (hreads : Reads graph fps inst.connections pairs) :
    fingerprintOrder sha256 graph facts (key :: rest) fps =
      fingerprintOrder sha256 graph facts rest (fps.set key (digest sha256 facts inst pairs)) := by
  have hinputs := inputs_ok.mpr ⟨pairs, hreads, rfl⟩
  simp [fingerprintOrder, hinst, hinputs, digest]

/-- A walk that succeeds: the map is fingerprinted, keeps what it had and
covers the order. -/
theorem fingerprintOrder_ok (order : List InstanceKey) (h : Fingerprinted sha256 graph facts fps)
    (hwalk : fingerprintOrder sha256 graph facts order fps = .ok fps') :
    Fingerprinted sha256 graph facts fps' ∧ Refines fps fps' ∧
      ∀ key ∈ order, (fps'.get? key).isSome := by
  induction order generalizing fps with
  | nil =>
    obtain rfl : fps = fps' := by simpa [fingerprintOrder] using hwalk
    exact ⟨h, fun _ _ hf => hf, by simp⟩
  | cons key rest ih =>
    simp only [fingerprintOrder] at hwalk
    split at hwalk
    · simp at hwalk
    · rename_i inst hinst
      split at hwalk
      · simp at hwalk
      · rename_i entries hentries
        obtain ⟨pairs, hreads, rfl⟩ := inputs_ok.mp hentries
        obtain ⟨hset, hrefines⟩ := h.set hinst hreads
        obtain ⟨hfinal, hrefines', hcovers⟩ := ih hset hwalk
        refine ⟨hfinal, fun k f hf => hrefines' k f (hrefines k f hf), ?_⟩
        intro k hk
        rcases List.mem_cons.mp hk with rfl | hk
        · have hself := hrefines' k _ (Dict.get?_set_self fps k _)
          simp [hself]
        · exact hcovers k hk

theorem computeFingerprints_ok (h : computeFingerprints sha256 graph facts = .ok fps) :
    Fingerprinted sha256 graph facts fps ∧ ∀ key ∈ graph.order, (fps.get? key).isSome := by
  obtain ⟨hfinal, -, hcovers⟩ := fingerprintOrder_ok graph.order Fingerprinted.nil h
  exact ⟨hfinal, hcovers⟩

end Digests

end Grafy.Fingerprints
