import Grafy.OrderedDict
import Mathlib.Data.List.Perm.Subperm
import Mathlib.Tactic.Ring

/-!
Topological orders of a finite set of keys, each with a list of sources. A
sourced list places every element after its sources, so its elements are
accessible. Sorting starts from the keys without sources and repeatedly places
the first ready key, which readies those of its successors that wait for
nothing else. The ready keys are kept by any operation that adds a key. What
is placed is always sourced, and every accessible key is placed.
-/
namespace Grafy.TopologicalSort

open OrderedDict

variable {K : Type*}

section Sourced

variable {sources : K → List K} {order : List K} {k : K}

def Sourced (sources : K → List K) (order : List K) : Prop :=
  ∀ pre k post, order = pre ++ k :: post → ∀ s ∈ sources k, s ∈ pre

theorem Sourced.nil : Sourced sources [] := by
  intro pre k post h
  simp at h

theorem Sourced.snoc (h : Sourced sources order) (hk : ∀ s ∈ sources k, s ∈ order) :
    Sourced sources (order ++ [k]) := by
  intro pre k' post heq s hs
  rcases List.eq_nil_or_concat post with rfl | ⟨init, last, rfl⟩
  · obtain ⟨rfl, hlast⟩ := List.append_inj' heq rfl
    obtain rfl : k = k' := by simpa using hlast
    exact hk s hs
  · rw [List.concat_eq_append, ← List.cons_append, ← List.append_assoc] at heq
    obtain ⟨horder, -⟩ := List.append_inj' heq rfl
    exact h pre k' init horder s hs

theorem Sourced.mem {s : K} (h : Sourced sources order) (hk : k ∈ order) (hs : s ∈ sources k) :
    s ∈ order := by
  obtain ⟨pre, post, rfl⟩ := List.append_of_mem hk
  exact List.mem_append_left _ (h pre k post rfl s hs)

/-- Following sources upwards from a placed element ends. -/
theorem Sourced.acc (h : Sourced sources order) (hk : k ∈ order) :
    Acc (fun s k => s ∈ sources k) k := by
  -- the induction is on how much of the order stands before the element
  suffices hgen : ∀ (n : ℕ) (pre : List K) (k : K) (post : List K), pre.length = n →
      order = pre ++ k :: post → Acc (fun s k => s ∈ sources k) k by
    obtain ⟨pre, post, heq⟩ := List.append_of_mem hk
    exact hgen pre.length pre k post rfl heq
  intro n
  induction n using Nat.strongRecOn with
  | ind n ih =>
    intro pre k post hlen heq
    refine Acc.intro k ?_
    intro s hs
    obtain ⟨before, after, rfl⟩ := List.append_of_mem (h pre k post heq s hs)
    have hshorter : before.length < n := by
      simp at hlen
      omega
    refine ih before.length hshorter before s (after ++ k :: post) rfl ?_
    rw [heq]
    simp

/-- In a sourced list without repetitions an element stands strictly after
its sources. -/
theorem Sourced.idxOf_lt [DecidableEq K] {s : K} (h : Sourced sources order) (hnodup : order.Nodup)
    (hk : k ∈ order) (hs : s ∈ sources k) : order.idxOf s < order.idxOf k := by
  obtain ⟨pre, post, rfl⟩ := List.append_of_mem hk
  have hspre := h pre k post rfl s hs
  have hkpre : k ∉ pre := by
    intro hmem
    exact (List.nodup_append.mp hnodup).2.2 k hmem k (by simp) rfl
  have hs' : (pre ++ k :: post).idxOf s < pre.length := by
    rw [List.idxOf_append_of_mem hspre]
    exact List.idxOf_lt_length_of_mem hspre
  have hk' : pre.length ≤ (pre ++ k :: post).idxOf k := by
    rw [List.idxOf_append_of_notMem hkpre]
    omega
  omega

end Sourced

section Sorting

variable [DecidableEq K]

/-- What a sort works on: the ready keys, the sources every key still waits
for, and the keys placed so far. -/
structure Queue (K : Type*) where
  ready : List K
  remaining : Dict K (List K)
  order : List K

variable (push : K → List K → List K) (sources : K → List K) (keys : List K)

def successors (k : K) : List K := keys.filter (fun k' => k ∈ sources k')

/-- The sources a key waits for once the given one is placed. -/
def leftOf (q : Queue K) (placed k : K) : List K :=
  ((q.remaining.get? k).getD []).filter (· ≠ placed)

/-- A successor no longer waits for the placed key. -/
def relax (placed : K) (q : Queue K) (k : K) : Queue K :=
  { q with
    remaining := q.remaining.set k (leftOf q placed k)
    ready := if leftOf q placed k = [] then push k q.ready else q.ready }

def place (q : Queue K) (placed : K) (rest : List K) : Queue K :=
  (successors sources keys placed).foldl (relax push placed)
    { q with ready := rest, order := q.order ++ [placed] }

/-- Every turn places one more key, so as many turns as keys are enough. -/
def drain : ℕ → Queue K → Queue K
  | 0, q => q
  | turns + 1, q =>
    match q.ready with
    | [] => q
    | placed :: rest => drain turns (place push sources keys q placed rest)

def start : Queue K where
  ready := (keys.filter (fun k => sources k = [])).foldr push []
  remaining := keys.map (fun k => (k, sources k))
  order := []

def sort : List K := (drain push sources keys keys.length (start push sources keys)).order

variable {push sources keys} {q : Queue K}

theorem relax_fold (hpush : ∀ k l, (push k l).Perm (k :: l)) (placed : K) {ks : List K}
    (hks : ks.Nodup) (q : Queue K) :
    (ks.foldl (relax push placed) q).order = q.order ∧
      (∀ k, (ks.foldl (relax push placed) q).remaining.get? k =
        if k ∈ ks then some (leftOf q placed k) else q.remaining.get? k) ∧
      (ks.foldl (relax push placed) q).ready.Perm
        (ks.filter (fun k => leftOf q placed k = []) ++ q.ready) := by
  induction ks generalizing q with
  | nil => simp
  | cons k rest ih =>
    obtain ⟨hnotin, hrest⟩ := List.nodup_cons.mp hks
    obtain ⟨horder, hremaining, hready⟩ := ih hrest (relax push placed q k)
    -- the later successors wait for what they waited for before
    have hleft : ∀ k' ∈ rest, leftOf (relax push placed q k) placed k' = leftOf q placed k' := by
      intro k' hk'
      have hne : k' ≠ k := fun h => hnotin (h ▸ hk')
      simp [leftOf, relax, Dict.get?_set_ne _ _ hne]
    refine ⟨?_, ?_, ?_⟩
    · rw [List.foldl_cons, horder]
      rfl
    · intro k'
      rw [List.foldl_cons, hremaining k']
      by_cases hin : k' ∈ rest
      · simp [hin, hleft k' hin]
      · by_cases heq : k' = k
        · subst heq
          simp [hnotin, relax]
        · simp [hin, heq, relax, Dict.get?_set_ne _ _ heq]
    · rw [List.foldl_cons]
      have hfilter : rest.filter (fun k' => leftOf (relax push placed q k) placed k' = []) =
          rest.filter (fun k' => leftOf q placed k' = []) := by
        apply List.filter_congr
        intro k' hk'
        simp [hleft k' hk']
      rw [hfilter] at hready
      refine hready.trans ?_
      by_cases hnone : leftOf q placed k = []
      · have hpushed : (relax push placed q k).ready = push k q.ready := by
          simp [relax, hnone]
        rw [hpushed, List.filter_cons_of_pos (by simpa using hnone)]
        refine ((hpush k q.ready).append_left _).trans ?_
        exact List.perm_middle
      · have hkept : (relax push placed q k).ready = q.ready := by
          simp [relax, hnone]
        rw [hkept, List.filter_cons_of_neg (by simpa using hnone)]

/-- What holds between two turns. -/
structure Placing (sources : K → List K) (keys : List K) (q : Queue K) : Prop where
  nodup : (q.order ++ q.ready).Nodup
  known : ∀ k ∈ q.order ++ q.ready, k ∈ keys
  remaining : ∀ k ∈ keys, q.remaining.get? k = some ((sources k).filter (· ∉ q.order))
  ready : ∀ k ∈ keys, k ∉ q.order → (k ∈ q.ready ↔ ∀ s ∈ sources k, s ∈ q.order)
  sourced : Sourced sources q.order

omit [DecidableEq K] in
theorem foldr_push_perm (hpush : ∀ k l, (push k l).Perm (k :: l)) (l : List K) :
    (l.foldr push []).Perm l := by
  induction l with
  | nil => exact .nil
  | cons k rest ih => exact (hpush k _).trans (ih.cons k)

theorem placing_start (hpush : ∀ k l, (push k l).Perm (k :: l)) (hkeys : keys.Nodup) :
    Placing sources keys (start push sources keys) := by
  have hperm := foldr_push_perm hpush (keys.filter (fun k => sources k = []))
  have hready : ∀ k, k ∈ (start push sources keys).ready ↔ k ∈ keys ∧ sources k = [] := by
    intro k
    simp [start, hperm.mem_iff]
  constructor
  · simpa [start] using hperm.nodup_iff.mpr (hkeys.filter _)
  · intro k hk
    exact ((hready k).mp (by simpa [start] using hk)).1
  · intro k hk
    have hnodup : (Dict.keys (keys.map (fun k => (k, sources k)))).Nodup := by
      simpa [Dict.keys, Function.comp_def] using hkeys
    have hget := Dict.get?_of_mem hnodup (List.mem_map.mpr ⟨k, hk, rfl⟩)
    simpa [start] using hget
  · intro k hk _
    rw [hready k]
    constructor
    · rintro ⟨-, hnone⟩ s hs
      simp [hnone] at hs
    · intro hall
      refine ⟨hk, List.eq_nil_iff_forall_not_mem.mpr ?_⟩
      intro s hs
      simpa [start] using hall s hs
  · exact Sourced.nil

theorem Placing.place (hpush : ∀ k l, (push k l).Perm (k :: l)) (hkeys : keys.Nodup)
    (h : Placing sources keys q) {placed : K} {rest : List K} (hready : q.ready = placed :: rest) :
    Placing sources keys (place push sources keys q placed rest) ∧
      (TopologicalSort.place push sources keys q placed rest).order = q.order ++ [placed] := by
  have hfold := relax_fold hpush placed (hkeys.filter (fun k => placed ∈ sources k))
    { q with ready := rest, order := q.order ++ [placed] }
  set q' := TopologicalSort.place push sources keys q placed rest with hq'
  obtain ⟨horder, hremaining, hperm⟩ := hfold
  change q'.order = q.order ++ [placed] at horder
  change q'.ready.Perm _ at hperm
  change ∀ k, q'.remaining.get? k = _ at hremaining
  have hplaced : placed ∈ q.ready := by simp [hready]
  have hpk : placed ∈ keys := h.known placed (List.mem_append_right _ hplaced)
  have hpo : placed ∉ q.order := by
    intro hmem
    exact (List.nodup_append.mp h.nodup).2.2 placed hmem placed hplaced rfl
  have hpsources : ∀ s ∈ sources placed, s ∈ q.order := (h.ready placed hpk hpo).mp hplaced
  -- a successor of the placed key was neither placed nor ready
  have hfresh : ∀ k, placed ∈ sources k → k ∉ q.order ∧ k ∉ q.ready := by
    intro k hk
    have hko : k ∉ q.order := fun hmem => hpo (h.sourced.mem hmem hk)
    refine ⟨hko, ?_⟩
    intro hmem
    have hkk := h.known k (List.mem_append_right _ hmem)
    exact hpo ((h.ready k hkk hko).mp hmem placed hk)
  have hleft : ∀ k ∈ keys, leftOf { q with ready := rest, order := q.order ++ [placed] } placed k =
      (sources k).filter (· ∉ q.order ++ [placed]) := by
    intro k hk
    simp only [leftOf, h.remaining k hk, Option.getD_some, List.filter_filter]
    apply List.filter_congr
    intro s _
    by_cases hs : s = placed <;> simp [hs]
  have hnew : ∀ k, k ∈ q'.ready ↔ (k ∈ keys ∧ placed ∈ sources k ∧
      (sources k).filter (· ∉ q.order ++ [placed]) = []) ∨ k ∈ rest := by
    intro k
    rw [hperm.mem_iff, List.mem_append, List.mem_filter, List.mem_filter]
    constructor
    · rintro (⟨⟨hk, hs⟩, hnone⟩ | hrest)
      · exact Or.inl ⟨hk, by simpa using hs, by rw [← hleft k hk]; simpa using hnone⟩
      · exact Or.inr hrest
    · rintro (⟨hk, hs, hnone⟩ | hrest)
      · exact Or.inl ⟨⟨hk, by simpa using hs⟩, by rw [← hleft k hk] at hnone; simpa using hnone⟩
      · exact Or.inr hrest
  refine ⟨⟨?_, ?_, ?_, ?_, ?_⟩, horder⟩
  · rw [horder]
    have hold : (q.order ++ placed :: rest).Nodup := hready ▸ h.nodup
    have hsplit :=
      List.nodup_append.mp (by simpa using hold : ((q.order ++ [placed]) ++ rest).Nodup)
    have hadded : (((keys.filter (fun k => placed ∈ sources k)).filter (fun k =>
        leftOf { q with ready := rest, order := q.order ++ [placed] } placed k = [])) ++
          rest).Nodup := by
      refine List.nodup_append.mpr ⟨(hkeys.filter _).filter _, hsplit.2.1, ?_⟩
      rintro a ha b hb rfl
      have hs : placed ∈ sources a := by
        simpa using (List.mem_filter.mp (List.mem_filter.mp ha).1).2
      exact (hfresh a hs).2 (by simp [hready, hb])
    refine List.nodup_append.mpr ⟨hsplit.1, hperm.nodup_iff.mpr hadded, ?_⟩
    rintro a ha b hb rfl
    rcases (hnew a).mp hb with ⟨-, hs, -⟩ | hrest
    · rcases mem_snoc.mp ha with hmem | rfl
      · exact (hfresh a hs).1 hmem
      · exact (hfresh a hs).2 hplaced
    · exact hsplit.2.2 a ha a hrest rfl
  · intro k hk
    rcases List.mem_append.mp hk with hmem | hmem
    · rw [horder] at hmem
      rcases mem_snoc.mp hmem with hmem | rfl
      · exact h.known k (List.mem_append_left _ hmem)
      · exact hpk
    · rcases (hnew k).mp hmem with ⟨hkk, -, -⟩ | hrest
      · exact hkk
      · exact h.known k (List.mem_append_right _ (by simp [hready, hrest]))
  · intro k hk
    rw [hremaining k, horder]
    by_cases hs : k ∈ keys.filter (fun k => placed ∈ sources k)
    · rw [if_pos hs, hleft k hk]
    · rw [if_neg hs, h.remaining k hk]
      congr 1
      apply List.filter_congr
      intro s hsk
      have hne : s ≠ placed := by
        rintro rfl
        exact hs (List.mem_filter.mpr ⟨hk, by simpa using hsk⟩)
      simp [hne]
  · intro k hk hko
    rw [horder] at hko
    obtain ⟨hko, hne⟩ : k ∉ q.order ∧ k ≠ placed := by simpa using hko
    rw [hnew k, horder]
    constructor
    · rintro (⟨-, -, hnone⟩ | hrest) s hs
      · by_contra hs'
        exact List.filter_eq_nil_iff.mp hnone s hs (by simpa using hs')
      · have hold := (h.ready k hk hko).mp (by simp [hready, hrest]) s hs
        exact List.mem_append_left _ hold
    · intro hall
      by_cases hs : placed ∈ sources k
      · refine Or.inl ⟨hk, hs, List.filter_eq_nil_iff.mpr ?_⟩
        intro s hsk
        simp only [decide_not, Bool.not_eq_eq_eq_not, Bool.not_true, decide_eq_false_iff_not,
          not_not]
        exact hall s hsk
      · have hin : ∀ s ∈ sources k, s ∈ q.order := by
          intro s hsk
          rcases mem_snoc.mp (hall s hsk) with hmem | rfl
          · exact hmem
          · exact absurd hsk hs
        have hmem := (h.ready k hk hko).mpr hin
        rw [hready] at hmem
        exact Or.inr ((List.mem_cons.mp hmem).resolve_left hne)
  · rw [horder]
    exact h.sourced.snoc hpsources

theorem Placing.length_le (h : Placing sources keys q) :
    q.order.length + q.ready.length ≤ keys.length := by
  have hsub := h.nodup.subperm (fun k hk => h.known k hk)
  simpa using hsub.length_le

theorem drain_placing (hpush : ∀ k l, (push k l).Perm (k :: l)) (hkeys : keys.Nodup) (turns : ℕ)
    (h : Placing sources keys q) (hturns : keys.length ≤ q.order.length + turns) :
    Placing sources keys (drain push sources keys turns q) ∧
      (drain push sources keys turns q).ready = [] := by
  induction turns generalizing q with
  | zero =>
    have hle := h.length_le
    refine ⟨h, List.eq_nil_of_length_eq_zero ?_⟩
    simp only [drain]
    omega
  | succ turns ih =>
    cases hready : q.ready with
    | nil => simpa [drain, hready] using h
    | cons placed rest =>
      obtain ⟨hnext, horder⟩ := h.place hpush hkeys hready
      have hmore : keys.length ≤ (place push sources keys q placed rest).order.length + turns := by
        rw [horder]
        simp
        omega
      simpa [drain, hready] using ih hnext hmore

/-- A sort leaves a state that places nothing more. -/
theorem sort_placing (sources : K → List K) (hpush : ∀ k l, (push k l).Perm (k :: l))
    (hkeys : keys.Nodup) :
    ∃ q, Placing sources keys q ∧ q.ready = [] ∧ q.order = sort push sources keys := by
  obtain ⟨hplacing, hready⟩ :=
    drain_placing hpush hkeys keys.length (placing_start hpush hkeys) (Nat.le_add_left _ _)
  exact ⟨_, hplacing, hready, rfl⟩

theorem sort_nodup (hpush : ∀ k l, (push k l).Perm (k :: l)) (hkeys : keys.Nodup) :
    (sort push sources keys).Nodup := by
  obtain ⟨q, hplacing, -, horder⟩ := sort_placing sources hpush hkeys
  rw [← horder]
  exact (List.nodup_append.mp hplacing.nodup).1

theorem sort_subset (hpush : ∀ k l, (push k l).Perm (k :: l)) (hkeys : keys.Nodup) {k : K}
    (hk : k ∈ sort push sources keys) : k ∈ keys := by
  obtain ⟨q, hplacing, -, horder⟩ := sort_placing sources hpush hkeys
  rw [← horder] at hk
  exact hplacing.known k (List.mem_append_left _ hk)

theorem sort_sourced (hpush : ∀ k l, (push k l).Perm (k :: l)) (hkeys : keys.Nodup) :
    Sourced sources (sort push sources keys) := by
  obtain ⟨q, hplacing, -, horder⟩ := sort_placing sources hpush hkeys
  rw [← horder]
  exact hplacing.sourced

/-- A sort places every key from which following sources upwards ends. -/
theorem mem_sort_of_acc (hpush : ∀ k l, (push k l).Perm (k :: l)) (hkeys : keys.Nodup)
    (hclosed : ∀ k ∈ keys, ∀ s ∈ sources k, s ∈ keys) {k : K} (hk : k ∈ keys)
    (hacc : Acc (fun s k => s ∈ sources k) k) : k ∈ sort push sources keys := by
  obtain ⟨q, hplacing, hready, horder⟩ := sort_placing sources hpush hkeys
  rw [← horder]
  induction hacc with
  | intro k _ ih =>
    by_contra hko
    have hall : ∀ s ∈ sources k, s ∈ q.order := fun s hs => ih s hs (hclosed k hk s hs)
    have hmem := (hplacing.ready k hk hko).mpr hall
    simp [hready] at hmem

theorem sort_length_eq_iff (hpush : ∀ k l, (push k l).Perm (k :: l)) (hkeys : keys.Nodup) :
    (sort push sources keys).length = keys.length ↔ ∀ k ∈ keys, k ∈ sort push sources keys := by
  have hsub : (sort push sources keys).Subperm keys :=
    (sort_nodup hpush hkeys).subperm (fun _ hk => sort_subset hpush hkeys hk)
  constructor
  · intro hlen k hk
    exact (hsub.perm_of_length_le hlen.ge).mem_iff.mpr hk
  · intro hall
    exact le_antisymm hsub.length_le (hkeys.subperm hall).length_le

end Sorting

end Grafy.TopologicalSort
