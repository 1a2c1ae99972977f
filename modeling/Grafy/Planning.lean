import Grafy.Fingerprints
import Grafy.Scheduler
import Mathlib.Data.List.Induction

/-!
Run planning: the stale part of the upstream closure of a Run's targets. The
walk follows connections upstream from the targets, stops at instances whose
fingerprint has a stored result, and asks the store once per fingerprint.
What is stale is then grouped by fingerprint over the whole graph. The store
may grow while the walk waits for it, so every query has its own store.
-/
namespace Grafy.Planning

open Instances OrderedDict Results Scheduler

/-- The errors of `plan_run`, by the keys they name. `notClosed` is the
RuntimeError; `missingInstance` is a key looked up in the graph in vain. -/
inductive PlanError
  | unknownTarget (key : InstanceKey)
  | targetWithoutFingerprint (key : InstanceKey)
  | reachedWithoutFingerprint (key : InstanceKey)
  | foreignSource (key source : InstanceKey)
  | upstreamWithoutFingerprint (key : InstanceKey)
  | notClosed (fingerprint : Fingerprint) (named : List Fingerprint)
  | missingInstance (key : InstanceKey)
  | outOfFuel
  deriving DecidableEq

/-- The variables of the walk; `queries` counts the store calls made. -/
structure Walk where
  fresh : List Fingerprint
  stale : List Fingerprint
  expanded : List InstanceKey
  frontier : List InstanceKey
  queries : ℕ

section Plan

variable (graph : ExpandedGraph) (fingerprints : Dict InstanceKey Fingerprint)

def checkTargets : List InstanceKey → List InstanceKey → Except PlanError (List InstanceKey)
  | deduped, [] => .ok deduped
  | deduped, target :: rest =>
    if (graph.instances.get? target).isNone then .error (.unknownTarget target)
    else if (fingerprints.get? target).isNone then .error (.targetWithoutFingerprint target)
    else if target ∈ deduped then checkTargets deduped rest
    else checkTargets (deduped ++ [target]) rest

/-- Appends the sources of a stale instance to the frontier. -/
def follow (w : Walk) (key : InstanceKey) : Except PlanError Walk :=
  match graph.instances.get? key with
  | none => .error (.missingInstance key)
  | some inst =>
    match inst.connections.find? (fun c => (graph.instances.get? c.source).isNone) with
    | some connection => .error (.foreignSource key connection.source)
    | none =>
      .ok { w with frontier := w.frontier ++ inst.connections.map Connection.source }

/-- One turn of the walk on the key taken from the frontier. -/
def visit (stores : ℕ → ResultStore) (w : Walk) (key : InstanceKey) : Except PlanError Walk :=
  if key ∈ w.expanded then .ok w
  else
    let w := { w with expanded := key :: w.expanded }
    match fingerprints.get? key with
    | none => .error (.reachedWithoutFingerprint key)
    | some fingerprint =>
      if fingerprint ∈ w.fresh then .ok w
      else if fingerprint ∈ w.stale then follow graph w key
      else if ((stores w.queries).getResult fingerprint).isSome then
        .ok { w with fresh := fingerprint :: w.fresh, queries := w.queries + 1 }
      else
        follow graph { w with stale := fingerprint :: w.stale, queries := w.queries + 1 } key

/-- The loop; every turn takes one key, and a key's sources are appended only
once, so the fuel `planRun` gives it is always enough. -/
def walk (stores : ℕ → ResultStore) : ℕ → Walk → Except PlanError Walk
  | 0, _ => .error .outOfFuel
  | fuel + 1, w =>
    match w.frontier with
    | [] => .ok w
    | key :: rest =>
      match visit graph fingerprints stores { w with frontier := rest } key with
      | .error e => .error e
      | .ok w' => walk stores fuel w'

def walkFuel (targets : List InstanceKey) : ℕ :=
  targets.length + (graph.instances.map (fun entry => entry.2.connections.length)).sum + 1

/-- The instances of each stale fingerprint, in the order of the graph. -/
def members (stale : List Fingerprint) : Dict Fingerprint (List InstanceKey) :=
  graph.order.foldl (fun groups key =>
    match fingerprints.get? key with
    | none => groups
    | some fingerprint =>
      if fingerprint ∈ stale then
        groups.set fingerprint ((groups.get? fingerprint).getD [] ++ [key])
      else groups) []

def fingerprintOf (key : InstanceKey) : Except PlanError Fingerprint :=
  match fingerprints.get? key with
  | none => .error (.upstreamWithoutFingerprint key)
  | some fingerprint => .ok fingerprint

def upstreamFingerprints : List Connection → Dict InstanceKey Fingerprint →
    Except PlanError (Dict InstanceKey Fingerprint)
  | [], upstream => .ok upstream
  | connection :: rest, upstream =>
    match fingerprintOf fingerprints connection.source with
    | .error e => .error e
    | .ok fingerprint =>
      upstreamFingerprints rest (upstream.set connection.source fingerprint)

/-- The stale fingerprints other than its own that some connections read. -/
def connectionDependencies (stale : List Fingerprint) (own : Fingerprint) :
    List Connection → List Fingerprint → Except PlanError (List Fingerprint)
  | [], dependsOn => .ok dependsOn
  | connection :: rest, dependsOn =>
    match fingerprintOf fingerprints connection.source with
    | .error e => .error e
    | .ok fingerprint =>
      if fingerprint = own ∨ fingerprint ∉ stale ∨ fingerprint ∈ dependsOn then
        connectionDependencies stale own rest dependsOn
      else connectionDependencies stale own rest (dependsOn ++ [fingerprint])

def groupDependencies (stale : List Fingerprint) (own : Fingerprint) :
    List InstanceKey → List Fingerprint → Except PlanError (List Fingerprint)
  | [], dependsOn => .ok dependsOn
  | key :: rest, dependsOn =>
    match graph.instances.get? key with
    | none => .error (.missingInstance key)
    | some inst =>
      match connectionDependencies fingerprints stale own inst.connections dependsOn with
      | .error e => .error e
      | .ok dependsOn => groupDependencies stale own rest dependsOn

def planComputation (stale : List Fingerprint) (fingerprint : Fingerprint)
    (group : List InstanceKey) : Except PlanError ComputationPlan :=
  let first := group.headD default
  match graph.instances.get? first with
  | none => .error (.missingInstance first)
  | some representative =>
    match upstreamFingerprints fingerprints representative.connections [] with
    | .error e => .error e
    | .ok upstream =>
      match groupDependencies graph fingerprints stale fingerprint group [] with
      | .error e => .error e
      | .ok dependsOn => .ok ⟨fingerprint, representative, group, dependsOn, upstream⟩

def planComputations (stale : List Fingerprint) :
    Dict Fingerprint (List InstanceKey) → Except PlanError (List ComputationPlan)
  | [] => .ok []
  | (fingerprint, group) :: rest =>
    match planComputation graph fingerprints stale fingerprint group with
    | .error e => .error e
    | .ok computation =>
      match planComputations stale rest with
      | .error e => .error e
      | .ok computations => .ok (computation :: computations)

/-- The check that the plan is closed; `none` when it is. -/
def firstOpen (computations : List ComputationPlan) : Option PlanError :=
  let keys := computations.map ComputationPlan.fingerprint
  (computations.find? (fun c =>
    c.dependsOn.any (· ∉ keys) || c.fingerprint ∈ c.dependsOn)).map (fun c =>
      .notClosed c.fingerprint (c.dependsOn.filter (· ∉ keys)))

end Plan

section Groups

variable {graph : ExpandedGraph} {fingerprints : Dict InstanceKey Fingerprint}
  {stale : List Fingerprint} {computations : List ComputationPlan}

/-- The instances of an order that carry a fingerprint. -/
def carriers (fingerprints : Dict InstanceKey Fingerprint) (order : List InstanceKey)
    (f : Fingerprint) : List InstanceKey :=
  order.filter (fun key => fingerprints.get? key = some f)

theorem carriers_append_singleton (order : List InstanceKey) (key : InstanceKey)
    (f : Fingerprint) : carriers fingerprints (order ++ [key]) f =
      carriers fingerprints order f ++ if fingerprints.get? key = some f then [key] else [] := by
  by_cases h : fingerprints.get? key = some f <;> simp [carriers, List.filter_append, h]

/-- A group is all the carriers of its fingerprint, in order. -/
theorem members_get? (f : Fingerprint) :
    (members graph fingerprints stale).get? f =
      if f ∈ stale ∧ carriers fingerprints graph.order f ≠ [] then
        some (carriers fingerprints graph.order f) else none := by
  unfold members
  induction graph.order using List.reverseRecOn with
  | nil => simp [carriers]
  | append_singleton order key ih =>
    rw [List.foldl_append, carriers_append_singleton]
    simp only [List.foldl_cons, List.foldl_nil]
    cases hkey : fingerprints.get? key with
    | none => simpa using ih
    | some g =>
      simp only [Option.some.injEq]
      by_cases hg : g ∈ stale
      · rw [if_pos hg]
        by_cases hfg : f = g
        · subst f
          rw [Dict.get?_set_self, ih]
          by_cases hempty : carriers fingerprints order g = []
          · simp [hg, hempty]
          · simp [hg, hempty]
        · rw [Dict.get?_set_ne _ _ hfg, ih, if_neg (Ne.symm hfg), List.append_nil]
      · rw [if_neg hg, ih]
        by_cases hfg : g = f
        · subst f
          simp [hg]
        · rw [if_neg hfg, List.append_nil]

theorem members_keys_nodup : (members graph fingerprints stale).keys.Nodup := by
  unfold members
  induction graph.order using List.reverseRecOn with
  | nil => simp [Dict.keys]
  | append_singleton order key ih =>
    rw [List.foldl_append]
    simp only [List.foldl_cons, List.foldl_nil]
    split
    · exact ih
    · split_ifs
      · exact Dict.keys_set_nodup ih _ _
      · exact ih

theorem planComputation_fingerprint {f : Fingerprint} {group : List InstanceKey}
    {c : ComputationPlan} (h : planComputation graph fingerprints stale f group = .ok c) :
    c.fingerprint = f := by
  simp only [planComputation] at h
  split at h
  · simp at h
  · split at h
    · simp at h
    · split at h
      · simp at h
      · cases h
        rfl

theorem planComputations_keys {groups : Dict Fingerprint (List InstanceKey)}
    (h : planComputations graph fingerprints stale groups = .ok computations) :
    computations.map ComputationPlan.fingerprint = groups.keys := by
  induction groups generalizing computations with
  | nil =>
    obtain rfl : [] = computations := by simpa [planComputations] using h
    rfl
  | cons entry rest ih =>
    obtain ⟨f, group⟩ := entry
    simp only [planComputations] at h
    split at h
    · simp at h
    · rename_i c hc
      split at h
      · simp at h
      · rename_i computations' hrest
        cases h
        rw [List.map_cons, planComputation_fingerprint hc, ih hrest]
        rfl

theorem planComputations_distinct
    (h : planComputations graph fingerprints stale (members graph fingerprints stale) = .ok
      computations) : (computations.map ComputationPlan.fingerprint).Nodup := by
  rw [planComputations_keys h]
  exact members_keys_nodup

end Groups

def planRun (graph : ExpandedGraph) (fingerprints : Dict InstanceKey Fingerprint)
    (targets : List InstanceKey) (stores : ℕ → ResultStore) : Except PlanError RunPlan :=
  match checkTargets graph fingerprints [] targets with
  | .error e => .error e
  | .ok deduped =>
    match walk graph fingerprints stores (walkFuel graph deduped) ⟨[], [], [], deduped, 0⟩ with
    | .error e => .error e
    | .ok w =>
      match h : planComputations graph fingerprints w.stale
          (members graph fingerprints w.stale) with
      | .error e => .error e
      | .ok computations =>
        match firstOpen computations with
        | some e => .error e
        | none => .ok ⟨deduped, computations, planComputations_distinct h⟩

end Grafy.Planning
