import Grafy.FingerprintInjectivity
import Grafy.Planning

/-!
What a plan holds. The walk expands exactly the instances reached from the
targets through stale ones, so the stale fingerprints it collects are those of
the stale instances reached. Grouping is by fingerprint over the whole graph:
that an instance nobody reached brings in nothing new is because instances with
one fingerprint read the same fingerprints, and that dependencies have no cycle
because the first carrier of a fingerprint reads only earlier carriers.
-/
namespace Grafy.Planning

open Fingerprints GraphDocuments Instances OrderedDict Results Scheduler

variable {source : InstanceKey} {inst : ExpandedInstance} {f : Fingerprint}
  {stale : List Fingerprint}

section Walking

/-- The instances reached from the targets by following connections through
stale instances only. -/
inductive Reached (graph : ExpandedGraph) (fingerprints : Dict InstanceKey Fingerprint)
    (targets : List InstanceKey) (Stale : Fingerprint → Prop) : InstanceKey → Prop
  | target {key : InstanceKey} (h : key ∈ targets) :
      Reached graph fingerprints targets Stale key
  | source {key source : InstanceKey} {f : Fingerprint}
      (hreached : Reached graph fingerprints targets Stale key)
      (hkey : fingerprints.get? key = some f) (hstale : Stale f)
      (hsource : source ∈ graph.sources key) :
      Reached graph fingerprints targets Stale source

variable {graph : ExpandedGraph} {fingerprints : Dict InstanceKey Fingerprint}
  {targets : List InstanceKey} {stores : ℕ → ResultStore} {w : Walk} {key : InstanceKey}
  {rest : List InstanceKey}

theorem Topological.source_mem (htopo : graph.Topological) (hkey : key ∈ graph.order)
    (hsource : source ∈ graph.sources key) : source ∈ graph.order := by
  obtain ⟨before, after, horder⟩ := List.append_of_mem hkey
  have hbefore := htopo.sourcesBefore before key after horder source hsource
  rw [horder]
  exact List.mem_append_left _ hbefore

theorem Reached.mem_order {Stale : Fingerprint → Prop} (htopo : graph.Topological)
    (htargets : ∀ target ∈ targets, target ∈ graph.order)
    (h : Reached graph fingerprints targets Stale key) : key ∈ graph.order := by
  induction h with
  | target h => exact htargets _ h
  | source _ _ _ hsource ih => exact Topological.source_mem htopo ih hsource

/-- What holds of the walk's variables between two turns. -/
structure Walked (graph : ExpandedGraph) (fingerprints : Dict InstanceKey Fingerprint)
    (targets : List InstanceKey) (stores : ℕ → ResultStore) (w : Walk) : Prop where
  reached : ∀ key, key ∈ w.expanded ∨ key ∈ w.frontier →
    Reached graph fingerprints targets (fun f => ∃ k, ¬ (stores k).Stored f) key
  started : ∀ target ∈ targets, target ∈ w.expanded ∨ target ∈ w.frontier
  expanded : ∀ key ∈ w.expanded, ∃ f, fingerprints.get? key = some f ∧
    (f ∈ w.fresh ∨
      (f ∈ w.stale ∧ ∀ source ∈ graph.sources key, source ∈ w.expanded ∨ source ∈ w.frontier))
  fresh : ∀ f ∈ w.fresh, f ∉ w.stale ∧ ∃ k, (stores k).Stored f
  stale : ∀ f ∈ w.stale, (∃ k, ¬ (stores k).Stored f) ∧
    ∃ key ∈ w.expanded, fingerprints.get? key = some f

/-- The connections of the instances that are not expanded yet. -/
def openConnections (instances : Dict InstanceKey ExpandedInstance)
    (expanded : List InstanceKey) : ℕ :=
  ((instances.filter (fun entry => entry.1 ∉ expanded)).map
    (fun entry => entry.2.connections.length)).sum

/-- An upper bound on the turns left. -/
def turns (graph : ExpandedGraph) (w : Walk) : ℕ :=
  w.frontier.length + openConnections graph.instances w.expanded

theorem openConnections_entry (entry : InstanceKey × ExpandedInstance)
    (rest : Dict InstanceKey ExpandedInstance) (expanded : List InstanceKey) :
    openConnections (entry :: rest) expanded =
      (if entry.1 ∈ expanded then 0 else entry.2.connections.length) +
        openConnections rest expanded := by
  by_cases h : entry.1 ∈ expanded <;> simp [openConnections, h]

theorem openConnections_cons_le (instances : Dict InstanceKey ExpandedInstance)
    (key : InstanceKey) (expanded : List InstanceKey) :
    openConnections instances (key :: expanded) ≤ openConnections instances expanded := by
  induction instances with
  | nil => simp [openConnections]
  | cons entry rest ih =>
    rw [openConnections_entry, openConnections_entry]
    by_cases hin : entry.1 ∈ expanded
    · simpa [hin] using ih
    · rw [if_neg hin]
      split_ifs <;> omega

theorem openConnections_cons {instances : Dict InstanceKey ExpandedInstance}
    {expanded : List InstanceKey} (hkey : key ∉ expanded) (hinst : (key, inst) ∈ instances) :
    openConnections instances (key :: expanded) + inst.connections.length ≤
      openConnections instances expanded := by
  induction instances with
  | nil => simp at hinst
  | cons entry rest ih =>
    rw [openConnections_entry, openConnections_entry]
    rcases List.mem_cons.mp hinst with rfl | hrest
    · have hle := openConnections_cons_le rest key expanded
      rw [if_pos (List.mem_cons_self ..), if_neg hkey]
      show 0 + openConnections rest (key :: expanded) + inst.connections.length ≤
        inst.connections.length + openConnections rest expanded
      omega
    · have hle := ih hrest
      by_cases hin : entry.1 ∈ expanded
      · rw [if_pos (List.mem_cons_of_mem _ hin), if_pos hin]
        omega
      · rw [if_neg hin]
        split_ifs <;> omega

theorem follow_ok (htopo : graph.Topological) (hkey : key ∈ graph.order) (w : Walk) :
    follow graph w key = .ok { w with frontier := w.frontier ++ graph.sources key } := by
  obtain ⟨inst, hinst⟩ := (htopo.covers key).mp hkey
  have hnone : inst.connections.find?
      (fun c => (graph.instances.get? c.source).isNone) = none := by
    rw [List.find?_eq_none]
    intro connection hconnection
    have hsource : connection.source ∈ graph.sources key := by
      rw [ExpandedGraph.sources_eq hinst]
      exact List.mem_map_of_mem hconnection
    obtain ⟨inst', hinst'⟩ := (htopo.covers _).mp (Topological.source_mem htopo hkey hsource)
    simp [hinst']
  simp [follow, hinst, hnone, ExpandedGraph.sources_eq hinst]

theorem turns_expand (hfrontier : w.frontier = key :: rest) (hkey : key ∉ w.expanded)
    (hmem : key ∈ graph.order) (htopo : graph.Topological) :
    rest.length + (graph.sources key).length +
      openConnections graph.instances (key :: w.expanded) < turns graph w := by
  obtain ⟨inst, hinst⟩ := (htopo.covers key).mp hmem
  have hopen := openConnections_cons hkey (Dict.mem_of_get? hinst)
  rw [turns, hfrontier, ExpandedGraph.sources_eq hinst, List.length_map, List.length_cons]
  omega

/-- A turn that expands the key it took, whatever the store said. -/
theorem Walked.expand (h : Walked graph fingerprints targets stores w) {followed : List InstanceKey}
    {fresh : List Fingerprint} (queries : ℕ) (hfrontier : w.frontier = key :: rest)
    (hf : fingerprints.get? key = some f) (hfresh : ∀ g ∈ w.fresh, g ∈ fresh)
    (hfresh' : ∀ g ∈ fresh, g ∈ w.fresh ∨ ∃ k, (stores k).Stored g)
    (hstale : ∀ g ∈ w.stale, g ∈ stale)
    (hstale' : ∀ g ∈ stale, g ∈ w.stale ∨ (g = f ∧ ∃ k, ¬ (stores k).Stored g))
    (hdisjoint : ∀ g ∈ fresh, g ∉ stale)
    (hfollowed : (f ∈ fresh ∧ followed = []) ∨ (f ∈ stale ∧ followed = graph.sources key)) :
    Walked graph fingerprints targets stores
      ⟨fresh, stale, key :: w.expanded, rest ++ followed, queries⟩ := by
  have hkept : ∀ k, k ∈ w.expanded ∨ k ∈ w.frontier →
      k ∈ key :: w.expanded ∨ k ∈ rest ++ followed := by
    intro k hk
    rw [hfrontier] at hk
    simp only [List.mem_cons, List.mem_append] at hk ⊢
    tauto
  have hkey := h.reached key (Or.inr (by simp [hfrontier]))
  have hstales : ∀ g ∈ stale, ∃ k, ¬ (stores k).Stored g := by
    intro g hg
    rcases hstale' g hg with hg | ⟨-, hg⟩
    · exact (h.stale g hg).1
    · exact hg
  constructor
  · intro k hk
    have hk' : (k ∈ w.expanded ∨ k ∈ w.frontier) ∨ k ∈ followed := by
      rw [hfrontier]
      simp only [List.mem_cons, List.mem_append] at hk ⊢
      tauto
    rcases hk' with hk | hk
    · exact h.reached k hk
    · rcases hfollowed with ⟨-, rfl⟩ | ⟨hfstale, rfl⟩
      · simp at hk
      · exact .source hkey hf (hstales f hfstale) hk
  · intro target htarget
    exact hkept target (h.started target htarget)
  · intro k hk
    rcases List.mem_cons.mp hk with rfl | hk
    · refine ⟨f, hf, ?_⟩
      rcases hfollowed with ⟨hffresh, -⟩ | ⟨hfstale, rfl⟩
      · exact Or.inl hffresh
      · exact Or.inr ⟨hfstale, fun source hsource => Or.inr (List.mem_append_right _ hsource)⟩
    · obtain ⟨g, hg, hdecided⟩ := h.expanded k hk
      refine ⟨g, hg, ?_⟩
      rcases hdecided with hg' | ⟨hg', hsources⟩
      · exact Or.inl (hfresh g hg')
      · exact Or.inr ⟨hstale g hg', fun source hsource => hkept source (hsources source hsource)⟩
  · intro g hg
    refine ⟨hdisjoint g hg, ?_⟩
    rcases hfresh' g hg with hg | hg
    · exact (h.fresh g hg).2
    · exact hg
  · intro g hg
    refine ⟨hstales g hg, ?_⟩
    rcases hstale' g hg with hg | ⟨rfl, -⟩
    · obtain ⟨k, hk, hkg⟩ := (h.stale g hg).2
      exact ⟨k, List.mem_cons_of_mem _ hk, hkg⟩
    · exact ⟨key, List.mem_cons_self .., hf⟩

section

variable (htopo : graph.Topological) (hcovers : ∀ key ∈ graph.order, (fingerprints.get? key).isSome)
  (htargets : ∀ target ∈ targets, target ∈ graph.order)
  (h : Walked graph fingerprints targets stores w)
include htopo hcovers htargets h

/-- One turn: it never fails, keeps what holds of the walk and brings it
nearer its end. -/
theorem visit_walked (hfrontier : w.frontier = key :: rest) :
    ∃ w', visit graph fingerprints stores { w with frontier := rest } key = .ok w' ∧
      Walked graph fingerprints targets stores w' ∧ turns graph w' < turns graph w := by
  have hmem : key ∈ graph.order :=
    (h.reached key (Or.inr (by simp [hfrontier]))).mem_order htopo htargets
  by_cases hkey : key ∈ w.expanded
  · refine ⟨{ w with frontier := rest }, by simp [visit, hkey], ?_, by simp [turns, hfrontier]⟩
    have hsame : ∀ k, k ∈ w.expanded ∨ k ∈ w.frontier ↔ k ∈ w.expanded ∨ k ∈ rest := by
      intro k
      rw [hfrontier, List.mem_cons]
      constructor
      · rintro (hk | rfl | hk)
        · exact Or.inl hk
        · exact Or.inl hkey
        · exact Or.inr hk
      · tauto
    refine ⟨fun k hk => h.reached k ((hsame k).mpr hk),
      fun target htarget => (hsame target).mp (h.started target htarget), ?_, h.fresh, h.stale⟩
    intro k hk
    obtain ⟨f, hf, hdecided⟩ := h.expanded k hk
    exact ⟨f, hf, hdecided.imp id (fun hstale =>
      ⟨hstale.1, fun source hsource => (hsame source).mp (hstale.2 source hsource)⟩)⟩
  · obtain ⟨f, hf⟩ := Option.isSome_iff_exists.mp (hcovers key hmem)
    have hturns := turns_expand hfrontier hkey hmem htopo
    have hdisjoint : ∀ g ∈ w.fresh, g ∉ w.stale := fun g hg => (h.fresh g hg).1
    by_cases hfresh : f ∈ w.fresh
    · refine ⟨⟨w.fresh, w.stale, key :: w.expanded, rest ++ [], w.queries⟩,
        by simp [visit, hkey, hf, hfresh], ?_, ?_⟩
      · exact h.expand _ hfrontier hf (fun _ hg => hg) (fun _ hg => Or.inl hg) (fun _ hg => hg)
          (fun _ hg => Or.inl hg) hdisjoint (Or.inl ⟨hfresh, rfl⟩)
      · simp only [turns, List.append_nil] at hturns ⊢
        omega
    · by_cases hstale : f ∈ w.stale
      · refine ⟨⟨w.fresh, w.stale, key :: w.expanded, rest ++ graph.sources key, w.queries⟩,
          by simp [visit, hkey, hf, hfresh, hstale, follow_ok htopo hmem], ?_, ?_⟩
        · exact h.expand _ hfrontier hf (fun _ hg => hg) (fun _ hg => Or.inl hg) (fun _ hg => hg)
            (fun _ hg => Or.inl hg) hdisjoint (Or.inr ⟨hstale, rfl⟩)
        · simpa only [turns, List.length_append] using hturns
      · by_cases hstored : (stores w.queries).Stored f
        · refine ⟨⟨f :: w.fresh, w.stale, key :: w.expanded, rest ++ [], w.queries + 1⟩, ?_, ?_, ?_⟩
          · have hsome : ((stores w.queries).getResult f).isSome = true := hstored
            simp [visit, hkey, hf, hfresh, hstale, hsome]
          · refine h.expand _ hfrontier hf (fun _ hg => List.mem_cons_of_mem _ hg) ?_
              (fun _ hg => hg) (fun _ hg => Or.inl hg) ?_ (Or.inl ⟨List.mem_cons_self .., rfl⟩)
            · intro g hg
              rcases List.mem_cons.mp hg with rfl | hg
              · exact Or.inr ⟨_, hstored⟩
              · exact Or.inl hg
            · intro g hg
              rcases List.mem_cons.mp hg with rfl | hg
              · exact hstale
              · exact hdisjoint g hg
          · simp only [turns, List.append_nil] at hturns ⊢
            omega
        · refine ⟨⟨w.fresh, f :: w.stale, key :: w.expanded, rest ++ graph.sources key,
            w.queries + 1⟩, ?_, ?_, ?_⟩
          · have hnone : ((stores w.queries).getResult f).isSome ≠ true := hstored
            simp [visit, hkey, hf, hfresh, hstale, hnone, follow_ok htopo hmem]
          · refine h.expand _ hfrontier hf (fun _ hg => hg) (fun _ hg => Or.inl hg)
              (fun _ hg => List.mem_cons_of_mem _ hg) ?_ ?_ (Or.inr ⟨List.mem_cons_self .., rfl⟩)
            · intro g hg
              rcases List.mem_cons.mp hg with rfl | hg
              · exact Or.inr ⟨rfl, _, hstored⟩
              · exact Or.inl hg
            · intro g hg hg'
              rcases List.mem_cons.mp hg' with rfl | hg'
              · exact hfresh hg
              · exact hdisjoint g hg hg'
          · simpa only [turns, List.length_append] using hturns

/-- The whole walk: it ends with nothing left to visit. -/
theorem walk_walked {fuel : ℕ} (hfuel : turns graph w < fuel) :
    ∃ w', walk graph fingerprints stores fuel w = .ok w' ∧
      Walked graph fingerprints targets stores w' ∧ w'.frontier = [] := by
  induction fuel generalizing w with
  | zero => omega
  | succ fuel ih =>
    cases hfrontier : w.frontier with
    | nil => exact ⟨w, by simp [walk, hfrontier], h, hfrontier⟩
    | cons key rest =>
      obtain ⟨w', hvisit, hwalked, hturns⟩ := visit_walked htopo hcovers htargets h hfrontier
      obtain ⟨w'', hwalk, hdone⟩ := ih hwalked (by omega)
      exact ⟨w'', by simp [walk, hfrontier, hvisit, hwalk], hdone⟩

end

end Walking

variable {targets : List InstanceKey} {stores : ℕ → ResultStore}

section Targets

variable {graph : ExpandedGraph} {fingerprints : Dict InstanceKey Fingerprint}

theorem checkTargets_ok (targets deduped : List InstanceKey)
    (hinstances : ∀ target ∈ targets, ∃ inst, graph.instances.get? target = some inst)
    (hfingerprints : ∀ target ∈ targets, (fingerprints.get? target).isSome)
    (hnodup : deduped.Nodup) :
    ∃ deduped', checkTargets graph fingerprints deduped targets = .ok deduped' ∧
      deduped'.Nodup ∧ ∀ key, key ∈ deduped' ↔ key ∈ deduped ∨ key ∈ targets := by
  induction targets generalizing deduped with
  | nil => exact ⟨deduped, rfl, hnodup, by simp⟩
  | cons target rest ih =>
    obtain ⟨inst, hinst⟩ := hinstances target (List.mem_cons_self ..)
    obtain ⟨f, hf⟩ := Option.isSome_iff_exists.mp (hfingerprints target (List.mem_cons_self ..))
    have hinstances' : ∀ t ∈ rest, ∃ inst, graph.instances.get? t = some inst :=
      fun t ht => hinstances t (List.mem_cons_of_mem _ ht)
    have hfingerprints' : ∀ t ∈ rest, (fingerprints.get? t).isSome :=
      fun t ht => hfingerprints t (List.mem_cons_of_mem _ ht)
    by_cases hmem : target ∈ deduped
    · obtain ⟨deduped', hok, hnodup', hiff⟩ := ih deduped hinstances' hfingerprints' hnodup
      refine ⟨deduped', by simp [checkTargets, hinst, hf, hmem, hok], hnodup', ?_⟩
      intro key
      rw [hiff, List.mem_cons]
      constructor
      · tauto
      · rintro (hkey | rfl | hkey)
        · exact Or.inl hkey
        · exact Or.inl hmem
        · exact Or.inr hkey
    · have hnodup' : (deduped ++ [target]).Nodup := by
        rw [List.nodup_append]
        exact ⟨hnodup, List.nodup_singleton _, by
          rintro a ha b hb rfl
          exact hmem (List.mem_singleton.mp hb ▸ ha)⟩
      obtain ⟨deduped', hok, hnodup'', hiff⟩ := ih _ hinstances' hfingerprints' hnodup'
      refine ⟨deduped', by simp [checkTargets, hinst, hf, hmem, hok], hnodup'', ?_⟩
      intro key
      rw [hiff, List.mem_append, List.mem_singleton, List.mem_cons]
      tauto

/-- A target that is not an instance is reported, the first one of them. -/
theorem checkTargets_unknown (deduped : List InstanceKey)
    (hcovers : ∀ key inst, graph.instances.get? key = some inst → (fingerprints.get? key).isSome)
    (hunknown : ∃ target ∈ targets, graph.instances.get? target = none) :
    ∃ target ∈ targets, graph.instances.get? target = none ∧
      checkTargets graph fingerprints deduped targets = .error (.unknownTarget target) := by
  induction targets generalizing deduped with
  | nil => simp at hunknown
  | cons target rest ih =>
    cases hinst : graph.instances.get? target with
    | none => exact ⟨target, List.mem_cons_self .., hinst, by simp [checkTargets, hinst]⟩
    | some inst =>
      obtain ⟨f, hf⟩ := Option.isSome_iff_exists.mp (hcovers target inst hinst)
      have hrest : ∃ t ∈ rest, graph.instances.get? t = none := by
        obtain ⟨t, ht, hnone⟩ := hunknown
        rcases List.mem_cons.mp ht with rfl | ht
        · rw [hinst] at hnone
          simp at hnone
        · exact ⟨t, ht, hnone⟩
      by_cases hmem : target ∈ deduped
      · obtain ⟨t, ht, hnone, herror⟩ := ih deduped hrest
        exact ⟨t, List.mem_cons_of_mem _ ht, hnone, by simp [checkTargets, hinst, hf, hmem, herror]⟩
      · obtain ⟨t, ht, hnone, herror⟩ := ih (deduped ++ [target]) hrest
        exact ⟨t, List.mem_cons_of_mem _ ht, hnone, by simp [checkTargets, hinst, hf, hmem, herror]⟩

/-- The walk from the targets, with the fuel it is given. -/
theorem walk_from_targets (htopo : graph.Topological)
    (hcovers : ∀ key ∈ graph.order, (fingerprints.get? key).isSome)
    (htargets : ∀ target ∈ targets, target ∈ graph.order) (stores : ℕ → ResultStore) :
    ∃ w, walk graph fingerprints stores (walkFuel graph targets) ⟨[], [], [], targets, 0⟩ =
        .ok w ∧ Walked graph fingerprints targets stores w ∧ w.frontier = [] := by
  refine walk_walked htopo hcovers htargets ?_ ?_
  · refine ⟨?_, fun target htarget => Or.inr htarget, by simp, by simp, by simp⟩
    intro key hkey
    rcases hkey with hkey | hkey
    · simp at hkey
    · exact .target hkey
  · simp [turns, walkFuel, openConnections]

end Targets

variable {key : InstanceKey} {group : List InstanceKey}

section Computations

variable {graph : ExpandedGraph} {fingerprints : Dict InstanceKey Fingerprint}
  {stale : List Fingerprint}

theorem fingerprintOf_ok (h : fingerprints.get? key = some f) :
    fingerprintOf fingerprints key = .ok f := by
  simp [fingerprintOf, h]

theorem upstreamFingerprints_ok (connections : List Connection)
    (hsources : ∀ c ∈ connections, (fingerprints.get? c.source).isSome)
    (upstream : Dict InstanceKey Fingerprint) :
    ∃ upstream', upstreamFingerprints fingerprints connections upstream = .ok upstream' ∧
      (∀ c ∈ connections, upstream'.get? c.source = fingerprints.get? c.source) ∧
      (∀ key, key ∉ connections.map Connection.source → upstream'.get? key = upstream.get? key) ∧
      ∀ f ∈ upstream'.values, f ∈ upstream.values ∨
        ∃ c ∈ connections, fingerprints.get? c.source = some f := by
  induction connections generalizing upstream with
  | nil => exact ⟨upstream, rfl, by simp, by simp, fun f hf => Or.inl hf⟩
  | cons c rest ih =>
    obtain ⟨g, hg⟩ := Option.isSome_iff_exists.mp (hsources c (List.mem_cons_self ..))
    obtain ⟨upstream', hok, hread, hother, hvalues⟩ :=
      ih (fun c' hc' => hsources c' (List.mem_cons_of_mem _ hc')) (upstream.set c.source g)
    refine ⟨upstream', by simp [upstreamFingerprints, fingerprintOf_ok hg, hok], ?_, ?_, ?_⟩
    · intro c' hc'
      rcases List.mem_cons.mp hc' with rfl | hc'
      · by_cases hrest : c'.source ∈ rest.map Connection.source
        · obtain ⟨c'', hc'', heq⟩ := List.mem_map.mp hrest
          rw [← heq]
          exact hread c'' hc''
        · rw [hother _ hrest, Dict.get?_set_self, hg]
      · exact hread c' hc'
    · intro key hkey
      rw [List.map_cons, List.mem_cons, not_or] at hkey
      rw [hother key hkey.2, Dict.get?_set_ne _ _ hkey.1]
    · intro f hf
      rcases hvalues f hf with hf | ⟨c', hc', hf⟩
      · obtain ⟨entry, hentry, rfl⟩ := List.mem_map.mp hf
        rcases Dict.mem_set hentry with rfl | hentry
        · exact Or.inr ⟨c, List.mem_cons_self .., hg⟩
        · exact Or.inl (List.mem_map_of_mem hentry)
      · exact Or.inr ⟨c', List.mem_cons_of_mem _ hc', hf⟩

theorem connectionDependencies_ok (stale : List Fingerprint) (own : Fingerprint)
    (connections : List Connection)
    (hsources : ∀ c ∈ connections, (fingerprints.get? c.source).isSome)
    (dependsOn : List Fingerprint) :
    ∃ dependsOn', connectionDependencies fingerprints stale own connections dependsOn =
        .ok dependsOn' ∧
      ∀ g, g ∈ dependsOn' ↔ g ∈ dependsOn ∨
        (g ≠ own ∧ g ∈ stale ∧ ∃ c ∈ connections, fingerprints.get? c.source = some g) := by
  induction connections generalizing dependsOn with
  | nil => exact ⟨dependsOn, rfl, by simp⟩
  | cons c rest ih =>
    obtain ⟨f, hf⟩ := Option.isSome_iff_exists.mp (hsources c (List.mem_cons_self ..))
    have hsources' : ∀ c' ∈ rest, (fingerprints.get? c'.source).isSome :=
      fun c' hc' => hsources c' (List.mem_cons_of_mem _ hc')
    by_cases hskip : f = own ∨ f ∉ stale ∨ f ∈ dependsOn
    · obtain ⟨dependsOn', hok, hiff⟩ := ih hsources' dependsOn
      refine ⟨dependsOn', ?_, ?_⟩
      · rw [connectionDependencies, fingerprintOf_ok hf]
        simp only [if_pos hskip, hok]
      · intro g
        rw [hiff]
        simp only [List.mem_cons, exists_eq_or_imp, hf, Option.some.injEq]
        constructor
        · tauto
        · rintro (hg | ⟨hne, hstale, rfl | hg⟩)
          · exact Or.inl hg
          · tauto
          · exact Or.inr ⟨hne, hstale, hg⟩
    · obtain ⟨dependsOn', hok, hiff⟩ := ih hsources' (dependsOn ++ [f])
      refine ⟨dependsOn', ?_, ?_⟩
      · rw [connectionDependencies, fingerprintOf_ok hf]
        simp only [if_neg hskip, hok]
      · intro g
        rw [hiff, List.mem_append, List.mem_singleton]
        simp only [List.mem_cons, exists_eq_or_imp, hf, Option.some.injEq]
        constructor
        · rintro ((hg | rfl) | ⟨hne, hstale, hg⟩)
          · exact Or.inl hg
          · exact Or.inr ⟨by tauto, by tauto, Or.inl rfl⟩
          · exact Or.inr ⟨hne, hstale, Or.inr hg⟩
        · rintro (hg | ⟨hne, hstale, rfl | hg⟩)
          · exact Or.inl (Or.inl hg)
          · exact Or.inl (Or.inr rfl)
          · exact Or.inr ⟨hne, hstale, hg⟩

theorem groupDependencies_ok (stale : List Fingerprint) (own : Fingerprint)
    (group : List InstanceKey)
    (hinstances : ∀ key ∈ group, ∃ inst, graph.instances.get? key = some inst)
    (hsources : ∀ key ∈ group, ∀ source ∈ graph.sources key, (fingerprints.get? source).isSome)
    (dependsOn : List Fingerprint) :
    ∃ dependsOn', groupDependencies graph fingerprints stale own group dependsOn = .ok dependsOn' ∧
      ∀ g, g ∈ dependsOn' ↔ g ∈ dependsOn ∨ (g ≠ own ∧ g ∈ stale ∧
        ∃ key ∈ group, ∃ source ∈ graph.sources key, fingerprints.get? source = some g) := by
  induction group generalizing dependsOn with
  | nil => exact ⟨dependsOn, rfl, by simp⟩
  | cons key rest ih =>
    obtain ⟨inst, hinst⟩ := hinstances key (List.mem_cons_self ..)
    have hkey := hsources key (List.mem_cons_self ..)
    rw [ExpandedGraph.sources_eq hinst] at hkey
    obtain ⟨dependsOn', hok, hiff⟩ := connectionDependencies_ok stale own
      inst.connections (fun c hc => hkey _ (List.mem_map_of_mem hc)) dependsOn
    obtain ⟨dependsOn'', hok', hiff'⟩ :=
      ih (fun k hk => hinstances k (List.mem_cons_of_mem _ hk))
        (fun k hk => hsources k (List.mem_cons_of_mem _ hk)) dependsOn'
    refine ⟨dependsOn'', by simp [groupDependencies, hinst, hok, hok'], ?_⟩
    intro g
    rw [hiff', hiff]
    simp only [List.mem_cons, exists_eq_or_imp, ExpandedGraph.sources_eq hinst, List.mem_map,
      exists_exists_and_eq_and]
    rw [or_assoc, ← and_or_left, ← and_or_left]

/-- What one computation of a plan holds, over the fingerprints found stale. -/
structure Describes (graph : ExpandedGraph) (fingerprints : Dict InstanceKey Fingerprint)
    (stale : List Fingerprint) (c : ComputationPlan) : Prop where
  planned : c.fingerprint ∈ stale
  instances : c.instances = carriers fingerprints graph.order c.fingerprint
  representative : ∃ first rest, c.instances = first :: rest ∧
    graph.instances.get? first = some c.representative
  dependsOn : ∀ g, g ∈ c.dependsOn ↔ g ≠ c.fingerprint ∧ g ∈ stale ∧
    ∃ key ∈ c.instances, ∃ source ∈ graph.sources key, fingerprints.get? source = some g
  upstream : ∀ connection ∈ c.representative.connections,
    c.upstreamFingerprints.get? connection.source = fingerprints.get? connection.source
  upstreamRead : ∀ g ∈ c.upstreamFingerprints.values,
    ∃ connection ∈ c.representative.connections, fingerprints.get? connection.source = some g

theorem carriers_mem {order : List InstanceKey} :
    key ∈ carriers fingerprints order f ↔ key ∈ order ∧ fingerprints.get? key = some f := by
  simp [carriers]

theorem planComputation_ok (htopo : graph.Topological)
    (hcovers : ∀ key ∈ graph.order, (fingerprints.get? key).isSome) (hf : f ∈ stale)
    (hgroup : group = carriers fingerprints graph.order f) (hempty : group ≠ []) :
    ∃ c, planComputation graph fingerprints stale f group = .ok c ∧
      Describes graph fingerprints stale c := by
  obtain ⟨first, rest, rfl⟩ := List.exists_cons_of_ne_nil hempty
  have horder : ∀ key ∈ first :: rest, key ∈ graph.order := by
    intro key hkey
    rw [hgroup] at hkey
    exact (carriers_mem.mp hkey).1
  have hinstances : ∀ key ∈ first :: rest, ∃ inst, graph.instances.get? key = some inst :=
    fun key hkey => (htopo.covers key).mp (horder key hkey)
  have hsources : ∀ key ∈ first :: rest, ∀ source ∈ graph.sources key,
      (fingerprints.get? source).isSome :=
    fun key hkey source hsource =>
      hcovers source (Topological.source_mem htopo (horder key hkey) hsource)
  obtain ⟨inst, hinst⟩ := hinstances first (List.mem_cons_self ..)
  have hfirst := hsources first (List.mem_cons_self ..)
  rw [ExpandedGraph.sources_eq hinst] at hfirst
  obtain ⟨upstream, hupstream, hread, -, hvalues⟩ := upstreamFingerprints_ok inst.connections
    (fun c hc => hfirst _ (List.mem_map_of_mem hc)) []
  obtain ⟨dependsOn, hdepends, hiff⟩ :=
    groupDependencies_ok stale f (first :: rest) hinstances hsources []
  refine ⟨⟨f, inst, first :: rest, dependsOn, upstream⟩, ?_, hf, hgroup,
    ⟨first, rest, rfl, hinst⟩, ?_, hread, ?_⟩
  · simp [planComputation, hinst, hupstream, hdepends]
  · intro g
    rw [hiff]
    simp
  · intro g hg
    rcases hvalues g hg with hg | hg
    · simp [Dict.values] at hg
    · exact hg

theorem planComputations_ok (groups : Dict Fingerprint (List InstanceKey))
    (hgroups : ∀ f group, (f, group) ∈ groups →
      ∃ c, planComputation graph fingerprints stale f group = .ok c ∧
        Describes graph fingerprints stale c) :
    ∃ computations, planComputations graph fingerprints stale groups = .ok computations ∧
      ∀ c ∈ computations, Describes graph fingerprints stale c := by
  induction groups with
  | nil => exact ⟨[], rfl, by simp⟩
  | cons entry rest ih =>
    obtain ⟨f, group⟩ := entry
    obtain ⟨c, hok, hc⟩ := hgroups f group (List.mem_cons_self ..)
    obtain ⟨computations, hoks, hcs⟩ :=
      ih (fun f' group' h => hgroups f' group' (List.mem_cons_of_mem _ h))
    refine ⟨c :: computations, by simp [planComputations, hok, hoks], ?_⟩
    intro c' hc'
    rcases List.mem_cons.mp hc' with rfl | hc'
    · exact hc
    · exact hcs c' hc'

end Computations

section Plans

variable {graph : ExpandedGraph} {fingerprints : Dict InstanceKey Fingerprint}
  {targets : List InstanceKey} {w : Walk}

/-- The plan a finished walk leads to. -/
structure PlannedFrom (graph : ExpandedGraph) (fingerprints : Dict InstanceKey Fingerprint)
    (targets : List InstanceKey) (w : Walk) (plan : RunPlan) : Prop where
  targetsOnce : plan.targets.Nodup ∧ ∀ key, key ∈ plan.targets ↔ key ∈ targets
  keys : ∀ f, f ∈ plan.fingerprints ↔ f ∈ w.stale
  computations : ∀ c ∈ plan.computations, Describes graph fingerprints w.stale c

/-- The groups of the members are those of the stale fingerprints. -/
theorem mem_members (h : (f, group) ∈ members graph fingerprints stale) :
    f ∈ stale ∧ group = carriers fingerprints graph.order f ∧ group ≠ [] := by
  have hget := Dict.get?_of_mem members_keys_nodup h
  rw [members_get?] at hget
  split_ifs at hget with hcond
  cases hget
  exact ⟨hcond.1, rfl, hcond.2⟩

/-- A plan is always closed: a dependency is a stale fingerprint with a
carrier, and these are the keys. -/
theorem firstOpen_none {computations : List ComputationPlan}
    (hkeys : ∀ f, f ∈ computations.map ComputationPlan.fingerprint ↔ f ∈ stale)
    (hcomputations : ∀ c ∈ computations, Describes graph fingerprints stale c) :
    firstOpen computations = none := by
  rw [firstOpen, Option.map_eq_none_iff, List.find?_eq_none]
  intro c hc
  have hdescribes := hcomputations c hc
  simp only [Bool.or_eq_true, List.any_eq_true, decide_eq_true_eq, not_or, not_exists, not_and,
    not_not]
  constructor
  · intro g hg
    exact (hkeys g).mpr ((hdescribes.dependsOn g).mp hg).2.1
  · intro hself
    exact ((hdescribes.dependsOn _).mp hself).1 rfl

/-- Planning never fails on targets of a topological graph, and its plan is
described by the walk. -/
theorem planRun_ok (htopo : graph.Topological)
    (hcovers : ∀ key ∈ graph.order, (fingerprints.get? key).isSome)
    (htargets : ∀ target ∈ targets, target ∈ graph.order) (stores : ℕ → ResultStore) :
    ∃ plan w, planRun graph fingerprints targets stores = .ok plan ∧
      PlannedFrom graph fingerprints targets w plan ∧ w.frontier = [] ∧
      Walked graph fingerprints targets stores w := by
  obtain ⟨deduped, hcheck, hnodup, hdeduped⟩ := checkTargets_ok targets []
    (fun target htarget => (htopo.covers target).mp (htargets target htarget))
    (fun target htarget => hcovers target (htargets target htarget)) List.nodup_nil
  simp only [List.not_mem_nil, false_or] at hdeduped
  obtain ⟨w, hwalk, hwalked, hdone⟩ := walk_from_targets htopo hcovers
    (fun target htarget => htargets target ((hdeduped target).mp htarget)) stores
  have hgroups : ∀ f group, (f, group) ∈ members graph fingerprints w.stale →
      ∃ c, planComputation graph fingerprints w.stale f group = .ok c ∧
        Describes graph fingerprints w.stale c := by
    intro f group h
    obtain ⟨hf, hgroup, hempty⟩ := mem_members h
    exact planComputation_ok htopo hcovers hf hgroup hempty
  obtain ⟨computations, hplan, hcomputations⟩ := planComputations_ok _ hgroups
  have hkeys : ∀ f, f ∈ computations.map ComputationPlan.fingerprint ↔ f ∈ w.stale := by
    intro f
    rw [planComputations_keys hplan]
    constructor
    · intro hf
      obtain ⟨group, hgroup⟩ := Option.isSome_iff_exists.mp (Dict.get?_isSome_of_mem_keys hf)
      exact (mem_members (Dict.mem_of_get? hgroup)).1
    · intro hf
      -- a stale fingerprint was found on an instance that the walk expanded
      obtain ⟨key, hkey, hkeyf⟩ := (hwalked.stale f hf).2
      have hreached := hwalked.reached key (Or.inl hkey)
      have horder : key ∈ graph.order := hreached.mem_order htopo
        (fun target htarget => htargets target ((hdeduped target).mp htarget))
      have hcarriers : carriers fingerprints graph.order f ≠ [] :=
        List.ne_nil_of_mem (carriers_mem.mpr ⟨horder, hkeyf⟩)
      have hget : (members graph fingerprints w.stale).get? f =
          some (carriers fingerprints graph.order f) := by
        rw [members_get?, if_pos ⟨hf, hcarriers⟩]
      exact Dict.mem_keys_of_get? hget
  have hclosed := firstOpen_none hkeys hcomputations
  refine ⟨⟨deduped, computations, planComputations_distinct hplan⟩, w, ?_,
    ⟨⟨hnodup, hdeduped⟩, hkeys, hcomputations⟩, hdone, ?_⟩
  · simp only [planRun, hcheck, hwalk]
    split
    · rename_i e herror
      rw [hplan] at herror
      simp at herror
    · rename_i computations' hplan'
      obtain rfl : computations = computations' := by
        rw [hplan] at hplan'
        exact Except.ok.inj hplan'
      simp only [hclosed]
  · obtain ⟨hreached, hstarted, hexpanded, hfresh, hstale⟩ := hwalked
    refine ⟨?_, fun target htarget => hstarted target ((hdeduped target).mpr htarget), hexpanded,
      hfresh, hstale⟩
    intro key hkey
    have h := hreached key hkey
    clear hkey
    induction h with
    | target h => exact .target ((hdeduped _).mp h)
    | source _ hkey hstale hsource ih => exact .source ih hkey hstale hsource

/-- A plan that was made tells what its walk was. -/
theorem planned_of_ok (htopo : graph.Topological)
    (hcovers : ∀ key ∈ graph.order, (fingerprints.get? key).isSome) {plan : RunPlan}
    (h : planRun graph fingerprints targets stores = .ok plan) :
    ∃ w, PlannedFrom graph fingerprints targets w plan ∧ w.frontier = [] ∧
      Walked graph fingerprints targets stores w := by
  have htargets : ∀ target ∈ targets, target ∈ graph.order := by
    by_contra hnot
    have hunknown : ∃ target ∈ targets, graph.instances.get? target = none := by
      push Not at hnot
      obtain ⟨target, htarget, horder⟩ := hnot
      refine ⟨target, htarget, ?_⟩
      rw [Option.eq_none_iff_forall_not_mem]
      intro inst hinst
      exact horder ((htopo.covers target).mpr ⟨inst, hinst⟩)
    obtain ⟨target, -, -, hcheck⟩ := checkTargets_unknown [] (fun key inst hinst =>
      hcovers key ((htopo.covers key).mpr ⟨inst, hinst⟩)) hunknown
    simp [planRun, hcheck] at h
  obtain ⟨plan', w, hplan', hplanned, hdone, hwalked⟩ := planRun_ok htopo hcovers htargets stores
  obtain rfl : plan = plan' := Except.ok.inj (h.symm.trans hplan')
  exact ⟨w, hplanned, hdone, hwalked⟩

end Plans

section Exactness

variable {sha256 : String → Fingerprint} {graph : ExpandedGraph} {facts : FingerprintFacts}
  {fps : Dict InstanceKey Fingerprint} {targets : List InstanceKey} {w : Walk} {plan : RunPlan}
  {g : Fingerprint}

/-- Where the first carrier of a fingerprint stands in the order. -/
def rank (graph : ExpandedGraph) (fps : Dict InstanceKey Fingerprint) (f : Fingerprint) : ℕ :=
  graph.order.findIdx (fun key => fps.get? key = some f)

section

variable (h : Fingerprinted sha256 graph facts fps)
  (hfree : Set.InjOn sha256 (documentTexts graph facts fps)) (htopo : graph.Topological)
include h hfree htopo

/-- The first carrier reads what every carrier reads, from instances before
it. -/
theorem rank_lt (hkey : key ∈ graph.order) (hf : fps.get? key = some f)
    (hsource : source ∈ graph.sources key) (hg : fps.get? source = some g) :
    rank graph fps g < rank graph fps f := by
  have hlt : rank graph fps f < graph.order.length :=
    List.findIdx_lt_length_of_exists ⟨key, hkey, by simpa using hf⟩
  have hfirst : fps.get? (graph.order.get ⟨rank graph fps f, hlt⟩) = some f := by
    have hcarries := List.findIdx_getElem (w := hlt)
    rwa [decide_eq_true_eq] at hcarries
  obtain ⟨g', hg', source', hsource', hread⟩ := source_of_fingerprint_eq h hfree hf hfirst hsource
  obtain rfl : g = g' := Option.some.inj (hg.symm.trans hg')
  have hsplit : graph.order = graph.order.take (rank graph fps f) ++
      graph.order.get ⟨rank graph fps f, hlt⟩ :: graph.order.drop (rank graph fps f + 1) := by
    simp
  have hbefore := htopo.sourcesBefore _ _ _ hsplit source' hsource'
  have hlength : (graph.order.take (rank graph fps f)).findIdx
      (fun k => fps.get? k = some g) < (graph.order.take (rank graph fps f)).length :=
    List.findIdx_lt_length_of_exists ⟨source', hbefore, by simpa using hread⟩
  have heq := (List.take_prefix _ _).findIdx_eq_of_findIdx_lt_length hlength
  calc rank graph fps g
      = (graph.order.take (rank graph fps f)).findIdx (fun k => fps.get? k = some g) := heq
    _ < (graph.order.take (rank graph fps f)).length := hlength
    _ ≤ rank graph fps f := List.length_take_le _ _

/-- Every upstream of a planned computation is one of its dependencies or was
found in the store by some query. -/
theorem upstream_planned_or_stored (hwalked : Walked graph fps targets stores w)
    (hdone : w.frontier = []) {c : ComputationPlan} (hc : Describes graph fps w.stale c)
    {connection : Connection} (hconnection : connection ∈ c.representative.connections)
    (hg : fps.get? connection.source = some g) :
    g ∈ c.dependsOn ∨ ∃ k, (stores k).Stored g := by
  obtain ⟨first, rest, hinstances, hrepresentative⟩ := hc.representative
  have hfirst : first ∈ c.instances := by
    rw [hinstances]
    exact List.mem_cons_self ..
  have hcarrier := hfirst
  rw [hc.instances] at hcarrier
  obtain ⟨horder, hfirstf⟩ := carriers_mem.mp hcarrier
  have hsource : connection.source ∈ graph.sources first := by
    rw [ExpandedGraph.sources_eq hrepresentative]
    exact List.mem_map_of_mem hconnection
  -- an instance with this fingerprint was expanded, and it reads the same
  obtain ⟨-, key, hkey, hkeyf⟩ := hwalked.stale _ hc.planned
  obtain ⟨g', hg', source', hsource', hread⟩ :=
    source_of_fingerprint_eq h hfree hfirstf hkeyf hsource
  obtain rfl : g = g' := Option.some.inj (hg.symm.trans hg')
  obtain ⟨f, hf, hdecided⟩ := hwalked.expanded key hkey
  obtain rfl : c.fingerprint = f := Option.some.inj (hkeyf.symm.trans hf)
  have hexpanded : source' ∈ w.expanded := by
    rcases hdecided with hfresh | ⟨-, hsources⟩
    · exact absurd hc.planned (hwalked.fresh _ hfresh).1
    · simpa [hdone] using hsources source' hsource'
  obtain ⟨g', hg', hgdecided⟩ := hwalked.expanded source' hexpanded
  obtain rfl : g = g' := Option.some.inj (hread.symm.trans hg')
  rcases hgdecided with hfresh | ⟨hstale, -⟩
  · exact Or.inr (hwalked.fresh g hfresh).2
  · have hrank := rank_lt h hfree htopo horder hfirstf hsource hg
    have hne : g ≠ c.fingerprint := by
      rintro rfl
      omega
    exact Or.inl ((hc.dependsOn g).mpr ⟨hne, hstale, first, hfirst, connection.source, hsource, hg⟩)

end

/-- A planned computation and one it depends on. -/
def DependsOn (plan : RunPlan) (f g : Fingerprint) : Prop :=
  ∃ c ∈ plan.computations, c.fingerprint = f ∧ g ∈ c.dependsOn

section

variable (h : Fingerprinted sha256 graph facts fps)
  (hfree : Set.InjOn sha256 (documentTexts graph facts fps)) (htopo : graph.Topological)
  (hplanned : PlannedFrom graph fps targets w plan)
include h hfree htopo hplanned

theorem rank_lt_of_dependsOn (hdepends : DependsOn plan f g) :
    rank graph fps g < rank graph fps f := by
  obtain ⟨c, hc, rfl, hg⟩ := hdepends
  have hdescribes := hplanned.computations c hc
  obtain ⟨-, -, key, hkey, source, hsource, hread⟩ := (hdescribes.dependsOn g).mp hg
  rw [hdescribes.instances] at hkey
  obtain ⟨horder, hf⟩ := carriers_mem.mp hkey
  exact rank_lt h hfree htopo horder hf hsource hread

theorem dependsOn_acyclic (f : Fingerprint) : ¬ Relation.TransGen (DependsOn plan) f f := by
  have hrank : ∀ f g, Relation.TransGen (DependsOn plan) f g →
      rank graph fps g < rank graph fps f := by
    intro f g hfg
    induction hfg with
    | single hstep => exact rank_lt_of_dependsOn h hfree htopo hplanned hstep
    | tail _ hstep ih => exact (rank_lt_of_dependsOn h hfree htopo hplanned hstep).trans ih
  intro hcycle
  exact absurd (hrank f f hcycle) (lt_irrefl _)

end

/-- What planning is for: exactly the stale computations the targets need,
each with all the instances that share it, closed and without cycles, and
nothing read that is neither planned nor stored. -/
structure Exact (graph : ExpandedGraph) (fps : Dict InstanceKey Fingerprint)
    (targets : List InstanceKey) (store : ResultStore) (plan : RunPlan) : Prop where
  targetsOnce : plan.targets.Nodup ∧ ∀ key, key ∈ plan.targets ↔ key ∈ targets
  keys : ∀ f, f ∈ plan.fingerprints ↔ ¬ store.Stored f ∧
    ∃ key, Reached graph fps targets (fun g => ¬ store.Stored g) key ∧ fps.get? key = some f
  instances : ∀ c ∈ plan.computations,
    c.instances = graph.order.filter (fun key => fps.get? key = some c.fingerprint)
  representative : ∀ c ∈ plan.computations, ∃ first rest, c.instances = first :: rest ∧
    graph.instances.get? first = some c.representative
  closed : ∀ c ∈ plan.computations, ∀ g ∈ c.dependsOn, g ∈ plan.fingerprints
  acyclic : ∀ f, ¬ Relation.TransGen (DependsOn plan) f f
  upstream : ∀ c ∈ plan.computations, ∀ connection ∈ c.representative.connections,
    ∃ g, fps.get? connection.source = some g ∧
      c.upstreamFingerprints.get? connection.source = some g ∧
      (g ∈ c.dependsOn ∨ store.Stored g)
  onlyUpstream : ∀ c ∈ plan.computations, ∀ g ∈ c.upstreamFingerprints.values,
    g ∈ c.dependsOn ∨ store.Stored g

theorem exact_of_planned (h : Fingerprinted sha256 graph facts fps)
    (hfree : Set.InjOn sha256 (documentTexts graph facts fps)) (htopo : graph.Topological)
    (hcovers : ∀ key ∈ graph.order, (fps.get? key).isSome) {store : ResultStore}
    (hwalked : Walked graph fps targets (fun _ => store) w) (hdone : w.frontier = [])
    (hplanned : PlannedFrom graph fps targets w plan) : Exact graph fps targets store plan := by
  have hstored : ∀ f, (∃ k : ℕ, ¬ store.Stored f) ↔ ¬ store.Stored f := fun f => by simp
  have hexpanded : ∀ key, Reached graph fps targets (fun g => ¬ store.Stored g) key →
      key ∈ w.expanded := by
    intro key hkey
    induction hkey with
    | target htarget => simpa [hdone] using hwalked.started _ htarget
    | @source key source f _ hf hstale hsource ih =>
      obtain ⟨f', hf', hdecided⟩ := hwalked.expanded key ih
      obtain rfl : f = f' := Option.some.inj (hf.symm.trans hf')
      rcases hdecided with hfresh | ⟨-, hsources⟩
      · obtain ⟨-, k, hk⟩ := hwalked.fresh f hfresh
        exact absurd hk hstale
      · simpa [hdone] using hsources source hsource
  constructor
  · exact hplanned.targetsOnce
  · intro f
    rw [hplanned.keys]
    constructor
    · intro hf
      obtain ⟨hnot, key, hkey, hkeyf⟩ := hwalked.stale f hf
      have hreached := hwalked.reached key (Or.inl hkey)
      simp only [hstored] at hnot hreached
      exact ⟨hnot, key, hreached, hkeyf⟩
    · rintro ⟨hnot, key, hreached, hkeyf⟩
      obtain ⟨f', hf', hdecided⟩ := hwalked.expanded key (hexpanded key hreached)
      obtain rfl : f = f' := Option.some.inj (hkeyf.symm.trans hf')
      rcases hdecided with hfresh | ⟨hstale, -⟩
      · obtain ⟨-, k, hk⟩ := hwalked.fresh f hfresh
        exact absurd hk hnot
      · exact hstale
  · intro c hc
    exact (hplanned.computations c hc).instances
  · intro c hc
    exact (hplanned.computations c hc).representative
  · intro c hc g hg
    exact (hplanned.keys g).mpr (((hplanned.computations c hc).dependsOn g).mp hg).2.1
  · exact dependsOn_acyclic h hfree htopo hplanned
  · intro c hc connection hconnection
    have hdescribes := hplanned.computations c hc
    obtain ⟨first, rest, hinstances, hrepresentative⟩ := hdescribes.representative
    have hcarrier : first ∈ carriers fps graph.order c.fingerprint := by
      rw [← hdescribes.instances, hinstances]
      exact List.mem_cons_self ..
    have hsource : connection.source ∈ graph.sources first := by
      rw [ExpandedGraph.sources_eq hrepresentative]
      exact List.mem_map_of_mem hconnection
    have horder := Topological.source_mem htopo (carriers_mem.mp hcarrier).1 hsource
    obtain ⟨g, hg⟩ := Option.isSome_iff_exists.mp (hcovers _ horder)
    refine ⟨g, hg, by rw [hdescribes.upstream connection hconnection, hg], ?_⟩
    simpa using upstream_planned_or_stored h hfree htopo hwalked hdone hdescribes hconnection hg
  · intro c hc g hg
    have hdescribes := hplanned.computations c hc
    obtain ⟨connection, hconnection, hread⟩ := hdescribes.upstreamRead g hg
    simpa using upstream_planned_or_stored h hfree htopo hwalked hdone hdescribes hconnection hread

/-- On a topological graph with its own fingerprints and no two documents of
one digest, planning targets of the graph gives an exact plan, and the only
error is a target that is not an instance of the graph. -/
theorem planRun_exact (htopo : graph.Topological)
    (hfps : computeFingerprints sha256 graph facts = .ok fps)
    (hfree : Set.InjOn sha256 (documentTexts graph facts fps)) (targets : List InstanceKey)
    (store : ResultStore) :
    ((∀ target ∈ targets, (graph.instances.get? target).isSome) →
      ∃ plan, planRun graph fps targets (fun _ => store) = .ok plan ∧
        Exact graph fps targets store plan) ∧
    ∀ e, planRun graph fps targets (fun _ => store) = .error e →
      ∃ target ∈ targets, graph.instances.get? target = none ∧ e = .unknownTarget target := by
  obtain ⟨hfingerprinted, hcovers⟩ := computeFingerprints_ok hfps
  have hplans : (∀ target ∈ targets, (graph.instances.get? target).isSome) →
      ∃ plan, planRun graph fps targets (fun _ => store) = .ok plan ∧
        Exact graph fps targets store plan := by
    intro htargets
    have horder : ∀ target ∈ targets, target ∈ graph.order := by
      intro target htarget
      rw [htopo.covers]
      exact Option.isSome_iff_exists.mp (htargets target htarget)
    obtain ⟨plan, w, hplan, hplanned, hdone, hwalked⟩ :=
      planRun_ok htopo hcovers horder (fun _ => store)
    exact ⟨plan, hplan, exact_of_planned hfingerprinted hfree htopo hcovers hwalked hdone hplanned⟩
  refine ⟨hplans, ?_⟩
  intro e herror
  by_cases htargets : ∀ target ∈ targets, (graph.instances.get? target).isSome
  · obtain ⟨plan, hplan, -⟩ := hplans htargets
    rw [hplan] at herror
    simp at herror
  · have hunknown : ∃ target ∈ targets, graph.instances.get? target = none := by
      simpa using htargets
    obtain ⟨target, htarget, hnone, hcheck⟩ := checkTargets_unknown [] (fun key inst hinst =>
      hcovers key ((htopo.covers key).mpr ⟨inst, hinst⟩)) hunknown
    refine ⟨target, htarget, hnone, ?_⟩
    simpa [planRun, hcheck] using herror.symm

end Exactness

section Example

def stageOf (id : String) (connections : List Connection) : ExpandedInstance :=
  ⟨keyOf id, { (default : GraphNode) with id := id, operatorId := id, operatorVersion := 1 },
    connections, [], 0⟩

def filterStage : ExpandedInstance := stageOf "filter" [feedOf "load" "filter"]

/-- A loader that feeds a filter, and two nodes on their own. -/
def pipeline : ExpandedGraph where
  projectId := "project"
  graphId := "graph"
  instances := [(keyOf "ping", stageOf "ping" []), (keyOf "load", stageOf "load" []),
    (keyOf "filter", filterStage), (keyOf "view", stageOf "view" [])]
  order := [keyOf "ping", keyOf "load", keyOf "filter", keyOf "view"]

def pingDigest : Fingerprint := "020053d59f8544edaa96fe50cf1e615ef182d311b899b7c9c240ecc7557630b7"
def loadDigest : Fingerprint := "c18fd69a783886ef10ae9f707264ea30e98b3e82a74009f8a27d781f8fccd46b"
def filterDigest : Fingerprint := "c4d7f537dc039b831024e4a03347fe6e663051f401115061980542f25b964a04"
def viewDigest : Fingerprint := "523222609e42aac23fc5f6f410316a1a1d70c3c386df509449efdaa6c6c8d962"

/-- SHA-256 on the four documents of the pipeline. -/
def pipelineDigest (text : String) : Fingerprint :=
  if text = documentText plainFacts (stageOf "ping" []) [] then pingDigest
  else if text = documentText plainFacts (stageOf "load" []) [] then loadDigest
  else if text = documentText plainFacts filterStage [(feedOf "load" "filter", loadDigest)] then
    filterDigest
  else viewDigest

def pipelineFingerprints : Dict InstanceKey Fingerprint :=
  [(keyOf "ping", pingDigest), (keyOf "load", loadDigest), (keyOf "filter", filterDigest),
    (keyOf "view", viewDigest)]

/-- Documents of nodes with different operators are different texts. -/
theorem documentText_ne {inst' : ExpandedInstance} {pairs pairs' : List (Connection × Fingerprint)}
    (h : inst.node.operatorId ≠ inst'.node.operatorId) :
    documentText plainFacts inst pairs ≠ documentText plainFacts inst' pairs' :=
  fun heq => h (same_of_documentText_eq heq).1.operatorId

theorem pipelineDigest_ping :
    digest pipelineDigest plainFacts (stageOf "ping" []) [] = pingDigest := by
  show pipelineDigest (documentText plainFacts (stageOf "ping" []) []) = pingDigest
  simp [pipelineDigest]

theorem pipelineDigest_load :
    digest pipelineDigest plainFacts (stageOf "load" []) [] = loadDigest := by
  show pipelineDigest (documentText plainFacts (stageOf "load" []) []) = loadDigest
  rw [pipelineDigest, if_neg (documentText_ne (by decide)), if_pos rfl]

theorem pipelineDigest_filter :
    digest pipelineDigest plainFacts filterStage [(feedOf "load" "filter", loadDigest)] =
      filterDigest := by
  show pipelineDigest (documentText plainFacts filterStage _) = filterDigest
  rw [pipelineDigest, if_neg (documentText_ne (by decide)), if_neg (documentText_ne (by decide)),
    if_pos rfl]

theorem pipelineDigest_view :
    digest pipelineDigest plainFacts (stageOf "view" []) [] = viewDigest := by
  show pipelineDigest (documentText plainFacts (stageOf "view" []) []) = viewDigest
  rw [pipelineDigest, if_neg (documentText_ne (by decide)), if_neg (documentText_ne (by decide)),
    if_neg (documentText_ne (by decide))]

theorem filterStage_reads {fps : Dict InstanceKey Fingerprint}
    (h : fps.get? (keyOf "load") = some loadDigest) :
    Reads pipeline fps filterStage.connections [(feedOf "load" "filter", loadDigest)] :=
  .cons (by decide) h .nil

theorem pipeline_fingerprints :
    computeFingerprints pipelineDigest pipeline plainFacts = .ok pipelineFingerprints := by
  unfold computeFingerprints
  simp only [pipeline]
  rw [← pipeline, fingerprintOrder_cons _ rfl .nil, pipelineDigest_ping,
    fingerprintOrder_cons _ rfl .nil, pipelineDigest_load,
    fingerprintOrder_cons _ rfl (filterStage_reads rfl), pipelineDigest_filter,
    fingerprintOrder_cons _ rfl .nil, pipelineDigest_view]
  rfl

theorem pipeline_topological : pipeline.Topological := by
  refine ⟨by decide, ?_, ?_⟩
  · intro key
    rw [← Option.isSome_iff_exists]
    constructor
    · intro hkey
      simp only [pipeline, List.mem_cons, List.not_mem_nil, or_false] at hkey
      rcases hkey with rfl | rfl | rfl | rfl <;> rfl
    · intro hkey
      obtain ⟨inst, hinst⟩ := Option.isSome_iff_exists.mp hkey
      have hmem := Dict.mem_keys_of_get? hinst
      exact hmem
  · intro before key after horder source hsource
    rcases before with _ | ⟨a, _ | ⟨b, _ | ⟨c, _ | ⟨d, before⟩⟩⟩⟩ <;>
      simp only [pipeline, List.nil_append, List.cons_append, List.cons.injEq] at horder
    · obtain ⟨rfl, -⟩ := horder
      exact absurd hsource List.not_mem_nil
    · obtain ⟨-, rfl, -⟩ := horder
      exact absurd hsource List.not_mem_nil
    · obtain ⟨-, rfl, rfl, -⟩ := horder
      have hload : source = keyOf "load" := List.mem_singleton.mp hsource
      simp [hload]
    · obtain ⟨-, -, -, rfl, -⟩ := horder
      exact absurd hsource List.not_mem_nil
    · have hlength := congrArg List.length horder.2.2.2.2
      simp at hlength

/-- The documents of the pipeline have the digests of its instances. -/
theorem pipeline_collision_free :
    Set.InjOn pipelineDigest (documentTexts pipeline plainFacts pipelineFingerprints) := by
  have hdigest : ∀ key inst pairs, pipeline.instances.get? key = some inst →
      Reads pipeline pipelineFingerprints inst.connections pairs →
      pipelineFingerprints.get? key =
        some (pipelineDigest (documentText plainFacts inst pairs)) := by
    intro key inst pairs hinst hreads
    obtain ⟨hfingerprinted, hcovers⟩ := computeFingerprints_ok pipeline_fingerprints
    have hkey := (pipeline_topological.covers key).mpr ⟨inst, hinst⟩
    obtain ⟨f, hf⟩ := Option.isSome_iff_exists.mp (hcovers key hkey)
    obtain ⟨inst', pairs', hinst', hreads', hfdigest⟩ := hfingerprinted.get hf
    cases hinst.symm.trans hinst'
    rw [hf, hfdigest, hreads'.unique hreads, digest, documentText]
  rintro text ⟨key, inst, pairs, hinst, hreads, rfl⟩ text'
    ⟨key', inst', pairs', hinst', hreads', rfl⟩
    heq
  have hkey := hdigest key inst pairs hinst hreads
  have hkey' := hdigest key' inst' pairs' hinst' hreads'
  rw [← heq] at hkey'
  have hsame : key = key' := by
    have hmem := (pipeline_topological.covers key).mpr ⟨inst, hinst⟩
    have hmem' := (pipeline_topological.covers key').mpr ⟨inst', hinst'⟩
    have hget := hkey.trans hkey'.symm
    simp only [pipeline, List.mem_cons, List.not_mem_nil, or_false] at hmem hmem'
    rcases hmem with rfl | rfl | rfl | rfl <;> rcases hmem' with rfl | rfl | rfl | rfl <;>
      first | rfl | exact absurd hget (by decide)
  subst key'
  cases hinst.symm.trans hinst'
  rw [hreads.unique hreads']

theorem pipeline_planned_exactly :
    ∃ plan, planRun pipeline pipelineFingerprints [keyOf "filter", keyOf "filter"]
        (fun _ => ResultStore.empty) = .ok plan ∧
      Exact pipeline pipelineFingerprints [keyOf "filter", keyOf "filter"] ResultStore.empty plan :=
  (planRun_exact pipeline_topological pipeline_fingerprints pipeline_collision_free _ _).1
    (by decide)

end Example

end Grafy.Planning
