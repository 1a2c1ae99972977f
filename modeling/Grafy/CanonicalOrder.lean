import Grafy.ClosedWalks
import Grafy.ExpansionInstances
import Grafy.OrderedSort
import Mathlib.Data.Prod.Lex

/-!
The order of an expansion. The instances have a topological order exactly when
their connections run in no cycle, and it is the same order however the map
and the connections are listed. Otherwise the error names a cycle: the walk
goes from an unplaced instance to its least unplaced feeder until it comes
back to where it has been.
-/
namespace Grafy.Expansion

open ClosedWalks Instances OrderedDict

section SortKey

/-- The key instances are sorted by. -/
def sortKey (key : InstanceKey) : String ×ₗ String ×ₗ List String ×ₗ String ×ₗ Int :=
  toLex (key.projectId, toLex (key.graphId, toLex (key.callPath, toLex (key.nodeId,
    key.mapIndex.getD (-1)))))

variable {a b : InstanceKey}

theorem sortLE_iff : SortLE a b ↔ sortKey a ≤ sortKey b := by
  simp [SortLE, sortKey, Prod.Lex.toLex_le_toLex]

instance : Std.Total SortLE where
  total a b := by
    rw [sortLE_iff, sortLE_iff]
    exact le_total _ _

instance : IsTrans InstanceKey SortLE where
  trans a b c hab hbc := by
    rw [sortLE_iff] at *
    exact hab.trans hbc

/-- A map index, where there is one, counts from 0. -/
def Indexed (key : InstanceKey) : Prop := ∀ i, key.mapIndex = some i → 0 ≤ i

theorem sortLE_antisymm (ha : Indexed a) (hb : Indexed b) (hab : SortLE a b) (hba : SortLE b a) :
    a = b := by
  have heq : sortKey a = sortKey b := le_antisymm (sortLE_iff.mp hab) (sortLE_iff.mp hba)
  obtain ⟨project, graph, path, node, index⟩ := a
  obtain ⟨project', graph', path', node', index'⟩ := b
  simp only [sortKey, EmbeddingLike.apply_eq_iff_eq, Prod.mk.injEq] at heq
  obtain ⟨rfl, rfl, rfl, rfl, hindex⟩ := heq
  cases index with
  | none =>
    cases index' with
    | none => rfl
    | some j =>
      have hj := hb j rfl
      simp at hindex
      omega
  | some i =>
    have hi := ha i rfl
    cases index' with
    | none =>
      simp at hindex
      omega
    | some j =>
      simp at hindex
      rw [hindex]

end SortKey

variable {instances : Dict InstanceKey ExpandedInstance} {path : List InstanceKey}

section Maps

/-- What `expand_graph` hands to the ordering: a key stands once, every source
is an instance, and map indices count from 0. -/
structure InstanceMap (instances : Dict InstanceKey ExpandedInstance) : Prop where
  nodup : instances.keys.Nodup
  closed : ∀ key ∈ instances.keys, ∀ source ∈ feeders instances key, source ∈ instances.keys
  indexed : ∀ key ∈ instances.keys, Indexed key

/-- The same instances with the same sources, listed in any order. -/
structure SameConnections (instances instances' : Dict InstanceKey ExpandedInstance) : Prop where
  keys : ∀ key, key ∈ instances'.keys ↔ key ∈ instances.keys
  sources : ∀ key ∈ instances.keys, ∀ source,
    source ∈ feeders instances' key ↔ source ∈ feeders instances key

/-- No instance feeds itself, directly or through others. -/
def Acyclic (instances : Dict InstanceKey ExpandedInstance) : Prop :=
  ∀ key, ¬ Relation.TransGen (fun source key => source ∈ feeders instances key) key key

/-- Each key on the path is fed by the next, and the last by the first. -/
def FeedsAround (instances : Dict InstanceKey ExpandedInstance) (path : List InstanceKey) : Prop :=
  ClosedWalk (fun key source => source ∈ feeders instances key) path

theorem FeedsAround.not_acyclic (h : FeedsAround instances path) : ¬ Acyclic instances := by
  obtain ⟨key, hcycle⟩ := h.transGen
  intro hacyclic
  exact hacyclic key hcycle.swap

/-- In a sourced order no key feeds itself. -/
theorem acyclic_of_order {order : List InstanceKey}
    (hsourced : TopologicalSort.Sourced (feeders instances) order)
    (hcovers : ∀ key, key ∈ order ↔ key ∈ instances.keys) : Acyclic instances := by
  intro key hcycle
  have hkey : key ∈ order := by
    rw [hcovers]
    obtain ⟨middle, -, hlast⟩ := Relation.TransGen.tail'_iff.mp hcycle
    by_contra hnot
    have hnone : instances.get? key = none := Dict.get?_eq_none hnot
    simp [feeders, hnone] at hlast
  exact not_transGen_of_acc (hsourced.acc hkey) hcycle

end Maps

section Cycles

variable {unplaced : List InstanceKey} {current : InstanceKey}

/-- The walk returns a cycle. The path has no repetitions and stays among the
unplaced instances, so it closes before the fuel is used up. -/
theorem oneCycle_ok (hfed : ∀ key ∈ unplaced, ∃ source ∈ feeders instances key, source ∈ unplaced)
    (fuel : ℕ) (hfuel : unplaced.length < fuel + path.length) (hnodup : path.Nodup)
    (hpath : ∀ key ∈ path, key ∈ unplaced) (hcurrent : current ∈ unplaced)
    (hchain : (path ++ [current]).IsChain (fun key source => source ∈ feeders instances key)) :
    ∃ cycle, oneCycle instances unplaced fuel current path = .ok cycle ∧
      FeedsAround instances cycle ∧ cycle.Nodup ∧ ∀ key ∈ cycle, key ∈ unplaced := by
  induction fuel generalizing current path with
  | zero =>
    have hle := (hnodup.subperm hpath).length_le
    omega
  | succ fuel ih =>
    unfold oneCycle
    by_cases hseen : current ∈ path
    · rw [if_pos hseen]
      obtain ⟨rest, hdrop, hclosed⟩ := closedWalk_of_seen hseen hchain
      refine ⟨_, rfl, ⟨current, rest, hdrop, hclosed⟩, hnodup.sublist (List.drop_sublist ..), ?_⟩
      intro key hkey
      exact hpath key (List.mem_of_mem_drop hkey)
    · rw [if_neg hseen]
      have hperm :=
        List.perm_insertionSort SortLE ((feeders instances current).filter (· ∈ unplaced))
      cases hsorted : ((feeders instances current).filter (· ∈ unplaced)).insertionSort SortLE with
      | nil =>
        obtain ⟨source, hsource, hleft⟩ := hfed current hcurrent
        rw [hsorted] at hperm
        have hmem := hperm.mem_iff.mpr (List.mem_filter.mpr ⟨hsource, by simpa using hleft⟩)
        simp at hmem
      | cons feeder others =>
        rw [hsorted] at hperm
        obtain ⟨hfeeder, hleft⟩ := List.mem_filter.mp (hperm.mem_iff.mp (List.mem_cons_self ..))
        exact ih (by rw [List.length_append, List.length_singleton]; omega)
          (nodup_snoc hnodup hseen) (List.forall_mem_append.mpr ⟨hpath, by simpa using hcurrent⟩)
          (by simpa using hleft) (isChain_snoc hchain hfeeder)

/-- The least of a list does not depend on how it is listed. -/
theorem head?_insertionSort_eq {l l' : List InstanceKey} (hsame : ∀ key, key ∈ l' ↔ key ∈ l)
    (hindexed : ∀ key ∈ l, Indexed key) :
    (l'.insertionSort SortLE).head? = (l.insertionSort SortLE).head? := by
  have hanti : ∀ a ∈ l, ∀ b ∈ l, SortLE a b → SortLE b a → a = b :=
    fun a ha b hb => sortLE_antisymm (hindexed a ha) (hindexed b hb)
  refine Option.ext fun least => ?_
  rw [TopologicalSort.head?_insertionSort_iff hanti, TopologicalSort.head?_insertionSort_iff]
  · simp only [hsame]
  · simpa only [hsame] using hanti

/-- The walk looks at the set of feeders only. -/
theorem oneCycle_eq {instances' : Dict InstanceKey ExpandedInstance}
    (hindexed : ∀ key ∈ unplaced, Indexed key)
    (hsources : ∀ key ∈ unplaced, ∀ source, source ∈ feeders instances' key ↔ source ∈ feeders
      instances key) (fuel : ℕ) (hcurrent : current ∈ unplaced) (path : List InstanceKey) :
    oneCycle instances' unplaced fuel current path =
      oneCycle instances unplaced fuel current path := by
  induction fuel generalizing current path with
  | zero => rfl
  | succ fuel ih =>
    unfold oneCycle
    have hhead : (((feeders instances' current).filter (· ∈ unplaced)).insertionSort SortLE).head? =
        (((feeders instances current).filter (· ∈ unplaced)).insertionSort SortLE).head? :=
      head?_insertionSort_eq (fun key => by simp [hsources current hcurrent key])
      (fun key hkey => hindexed key (by simpa using (List.mem_filter.mp hkey).2))
    have hperm := List.perm_insertionSort SortLE ((feeders instances current).filter (· ∈ unplaced))
    congr 1
    cases hsorted : ((feeders instances current).filter (· ∈ unplaced)).insertionSort SortLE with
    | nil =>
      rw [hsorted, List.head?_nil, List.head?_eq_none_iff] at hhead
      rw [hhead]
    | cons feeder others =>
      rw [hsorted] at hhead hperm
      obtain ⟨others', hsorted'⟩ := List.head?_eq_some_iff.mp hhead
      rw [hsorted']
      have hleft := (List.mem_filter.mp (hperm.mem_iff.mp (List.mem_cons_self ..))).2
      exact ih (by simpa using hleft) _

end Cycles

section Ordered

variable {instances instances' : Dict InstanceKey ExpandedInstance}

theorem pushKey_eq : pushKey = List.orderedInsert SortLE := by
  funext key ready
  rfl

/-- The sort that the ordering runs. -/
def sorted (instances : Dict InstanceKey ExpandedInstance) : List InstanceKey :=
  TopologicalSort.sort pushKey (feeders instances) instances.keys

def unplaced (instances : Dict InstanceKey ExpandedInstance) : List InstanceKey :=
  (instances.keys.filter (· ∉ sorted instances)).insertionSort SortLE

theorem mem_unplaced {key : InstanceKey} :
    key ∈ unplaced instances ↔ key ∈ instances.keys ∧ key ∉ sorted instances := by
  rw [unplaced, (List.perm_insertionSort _ _).mem_iff]
  simp

theorem unplaced_fed (hmap : InstanceMap instances) :
    ∀ key ∈ unplaced instances, ∃ source ∈ feeders instances key, source ∈ unplaced instances := by
  intro key hkey
  obtain ⟨hmem, hleft⟩ := mem_unplaced.mp hkey
  obtain ⟨source, hsource, hunplaced⟩ :=
    TopologicalSort.exists_unplaced_source pushKey_perm hmap.nodup hmem hleft
  exact ⟨source, hsource, mem_unplaced.mpr ⟨hmap.closed key hmem source hsource, hunplaced⟩⟩

/-- When the sort leaves instances over, the walk from the first of them finds
a cycle. -/
theorem exists_walk (hmap : InstanceMap instances)
    (hshort : (sorted instances).length ≠ instances.length) : ∃ first rest path,
      unplaced instances = first :: rest ∧
        oneCycle instances (unplaced instances) ((unplaced instances).length + 1) first
          [] = .ok path ∧
        FeedsAround instances path ∧ path.Nodup ∧ ∀ key ∈ path, key ∈ instances.keys := by
  have hleft : ∃ first rest, unplaced instances = first :: rest := by
    refine List.exists_cons_of_ne_nil ?_
    intro hnone
    refine hshort ?_
    have hall := (TopologicalSort.sort_length_eq_iff pushKey_perm hmap.nodup).mpr (by
      intro key hkey
      by_contra hnot
      have hmem := mem_unplaced.mpr ⟨hkey, hnot⟩
      simp [hnone] at hmem)
    exact hall.trans (List.length_map _)
  obtain ⟨first, rest, hfirst⟩ := hleft
  have hmem : first ∈ unplaced instances := by simp [hfirst]
  obtain ⟨path, hpath, haround, hnodup, hpathmem⟩ := oneCycle_ok (unplaced_fed hmap)
    ((unplaced instances).length + 1) (by simp) List.nodup_nil (by simp) hmem
    (List.isChain_singleton first)
  exact ⟨first, rest, path, hfirst, hpath, haround, hnodup,
    fun key hkey => (mem_unplaced.mp (hpathmem key hkey)).1⟩

theorem cycleError_of_walk {first : InstanceKey} {rest : List InstanceKey}
    (hfirst : unplaced instances = first :: rest)
    (hpath : oneCycle instances (unplaced instances) ((unplaced instances).length + 1) first [] =
      .ok path) : cycleError instances (sorted instances) = .cycle path := by
  rw [hfirst] at hpath
  unfold unplaced at hfirst
  simp only [cycleError, hfirst, hpath]

theorem topologicalOrder_sorted (hmap : InstanceMap instances) : topologicalOrder instances =
    if (sorted instances).length = instances.length then .ok (sorted instances)
    else .error (cycleError instances (sorted instances)) :=
  topologicalOrder_eq hmap.closed

theorem feedsAround_of_not_ok (hmap : InstanceMap instances)
    (h : ¬ ∃ order, topologicalOrder instances = .ok order) : ∃ path,
      topologicalOrder instances = .error (.cycle path) ∧ FeedsAround instances path ∧
        path.Nodup ∧ ∀ key ∈ path, key ∈ instances.keys := by
  have hshort : (sorted instances).length ≠ instances.length := by
    intro hlength
    exact h ⟨_, by rw [topologicalOrder_sorted hmap, if_pos hlength]⟩
  obtain ⟨first, rest, path, hfirst, hpath, haround⟩ := exists_walk hmap hshort
  refine ⟨path, ?_, haround⟩
  rw [topologicalOrder_sorted hmap, if_neg hshort, cycleError_of_walk hfirst hpath]

/-- Maps with the same instances and the same sources end alike. -/
theorem topologicalOrder_congr (hmap : InstanceMap instances) (hmap' : InstanceMap instances')
    (hsame : SameConnections instances instances') :
    topologicalOrder instances' = topologicalOrder instances := by
  have hsorted : sorted instances' = sorted instances := by
    unfold sorted
    rw [pushKey_eq]
    refine TopologicalSort.sort_eq ?_ hmap.nodup hmap'.nodup hsame.keys hsame.sources
    intro a ha b hb hab hba
    exact sortLE_antisymm (hmap.indexed a ha) (hmap.indexed b hb) hab hba
  have hkeys : instances'.keys.Perm instances.keys :=
    (List.perm_ext_iff_of_nodup hmap'.nodup hmap.nodup).mpr hsame.keys
  have hlength : instances'.length = instances.length := by
    simpa [Dict.keys] using hkeys.length_eq
  have hleft : unplaced instances' = unplaced instances := by
    unfold unplaced
    rw [hsorted]
    refine TopologicalSort.insertionSort_perm (fun a ha b hb => ?_) (hkeys.filter _)
    exact sortLE_antisymm (hmap'.indexed a (List.mem_filter.mp ha).1)
      (hmap'.indexed b (List.mem_filter.mp hb).1)
  rw [topologicalOrder_sorted hmap, topologicalOrder_sorted hmap', hsorted, hlength]
  by_cases hall : (sorted instances).length = instances.length
  · rw [if_pos hall, if_pos hall]
  · rw [if_neg hall, if_neg hall]
    obtain ⟨first, rest, path, hfirst, hpath, -⟩ := exists_walk hmap hall
    have hpath' : oneCycle instances' (unplaced instances') ((unplaced instances').length + 1) first
        [] = .ok path := by
      rw [hleft, oneCycle_eq ?_ ?_ _ (by simp [hfirst]) [], hpath]
      · exact fun key hkey => hmap.indexed key (mem_unplaced.mp hkey).1
      · exact fun key hkey => hsame.sources key (mem_unplaced.mp hkey).1
    rw [cycleError_of_walk hfirst hpath, ← hsorted, cycleError_of_walk (hleft.trans hfirst) hpath']

/-- The ordering succeeds exactly on the maps whose connections run in no
cycle, with all instances after their sources; otherwise it names a cycle. It
ends alike on maps that list the same instances and sources differently. -/
theorem topological_order_canonical (hmap : InstanceMap instances) (hmap' : InstanceMap instances')
    (hsame : SameConnections instances instances') :
    ((∃ order, topologicalOrder instances = .ok order) ↔ Acyclic instances) ∧
      (∀ order, topologicalOrder instances = .ok order → order.Perm instances.keys ∧
        TopologicalSort.Sourced (feeders instances) order) ∧
      (¬ Acyclic instances → ∃ path, topologicalOrder instances = .error (.cycle path) ∧
        FeedsAround instances path ∧ path.Nodup ∧ ∀ key ∈ path, key ∈ instances.keys) ∧
      topologicalOrder instances' = topologicalOrder instances := by
  have hiff : (∃ order, topologicalOrder instances = .ok order) ↔ Acyclic instances := by
    constructor
    · rintro ⟨order, horder⟩
      obtain ⟨-, hsourced, hcovers⟩ := topologicalOrder_ok hmap.nodup hmap.closed horder
      exact acyclic_of_order hsourced hcovers
    · intro hacyclic
      by_contra hnot
      obtain ⟨path, -, haround, -⟩ := feedsAround_of_not_ok hmap hnot
      exact haround.not_acyclic hacyclic
  refine ⟨hiff, ?_, ?_, topologicalOrder_congr hmap hmap' hsame⟩
  · intro order horder
    obtain ⟨hnodup, hsourced, hcovers⟩ := topologicalOrder_ok hmap.nodup hmap.closed horder
    exact ⟨(List.perm_ext_iff_of_nodup hnodup hmap.nodup).mpr hcovers, hsourced⟩
  · intro hcyclic
    exact feedsAround_of_not_ok hmap (fun h => hcyclic (hiff.mp h))

end Ordered

section Example

/-- An instance that reads the given ones. -/
def readingInstance (id : String) (sources : List String) : InstanceKey × ExpandedInstance :=
  (⟨"p", "g", [], id, none⟩, {
    key := ⟨"p", "g", [], id, none⟩
    node := default
    connections := sources.map (fun source => ⟨⟨"p", "g", [], source, none⟩,
      ⟨"e", true, source, "o", id, "i", none, .direct, none, [], none⟩⟩)
    origins := []
    refreshGeneration := 0 })

/-- A ring of two and one instance that reads it, listed in two ways. -/
def ring : Dict InstanceKey ExpandedInstance :=
  [readingInstance "a" ["b"], readingInstance "b" ["c", "c"], readingInstance "c" ["b"]]

def ring' : Dict InstanceKey ExpandedInstance :=
  [readingInstance "c" ["b"], readingInstance "a" ["b", "b"], readingInstance "b" ["c"]]

theorem ring_instanceMap : InstanceMap ring ∧ InstanceMap ring' ∧ SameConnections ring ring' := by
  have hindexed : ∀ d : Dict InstanceKey ExpandedInstance, (∀ key ∈ d.keys, key.mapIndex = none) →
      ∀ key ∈ d.keys, Indexed key := by
    intro d hnone key hkey i hi
    simp [hnone key hkey] at hi
  have hkeys : ∀ key, key ∈ ring'.keys ↔ key ∈ ring.keys := by
    have hperm : ring'.keys.Perm ring.keys := by decide
    exact fun key => hperm.mem_iff
  have hsources : ∀ key ∈ ring.keys, feeders ring' key ⊆ feeders ring key ∧
      feeders ring key ⊆ feeders ring' key := by decide
  exact ⟨⟨by decide, by decide, hindexed _ (by decide)⟩,
    ⟨by decide, by decide, hindexed _ (by decide)⟩,
    hkeys, fun key hkey source => ⟨fun h => (hsources key hkey).1 h,
      fun h => (hsources key hkey).2 h⟩⟩

/-- The ring is named, whichever way it is listed. -/
theorem ring_named : (∃ path, topologicalOrder ring = .error (.cycle path) ∧
    FeedsAround ring path) ∧
    topologicalOrder ring' = topologicalOrder ring := by
  obtain ⟨hmap, hmap', hsame⟩ := ring_instanceMap
  obtain ⟨hiff, -, hcycle, heq⟩ := topological_order_canonical hmap hmap' hsame
  refine ⟨?_, heq⟩
  have hfails : ¬ Acyclic ring := by
    rw [← hiff]
    rintro ⟨order, horder⟩
    have hrun : (topologicalOrder ring).isOk = false := by decide
    simp [horder, Except.isOk, Except.toBool] at hrun
  obtain ⟨path, hpath, haround, -⟩ := hcycle hfails
  exact ⟨path, hpath, haround⟩

end Example

end Grafy.Expansion
