import Grafy.TopologicalSort
import Mathlib.Data.List.Sort

/-!
Topological sorting with the ready keys kept in order. The least ready key is
placed at every turn, so what is placed depends only on the set of keys and on
which sources each of them has. What is left over when the keys run out waits
for something else that is left over.
-/
namespace Grafy.TopologicalSort

variable {K : Type*} [DecidableEq K]

section Left

variable {push : K → List K → List K} {sources : K → List K} {keys : List K}

/-- A key that is never placed has a source that is never placed. -/
theorem exists_unplaced_source (hpush : ∀ k l, (push k l).Perm (k :: l)) (hkeys : keys.Nodup)
    {k : K}
    (hk : k ∈ keys) (hleft : k ∉ sort push sources keys) :
    ∃ s ∈ sources k, s ∉ sort push sources keys := by
  obtain ⟨q, hplacing, hready, horder⟩ := sort_placing sources hpush hkeys
  rw [← horder] at hleft ⊢
  by_contra hnone
  have hall : ∀ s ∈ sources k, s ∈ q.order := by
    intro s hs
    by_contra hs'
    exact hnone ⟨s, hs, hs'⟩
  have hmem := (hplacing.ready k hk hleft).mpr hall
  simp [hready] at hmem

/-- The ready keys are those that wait for nothing and have not been placed. -/
theorem Placing.mem_ready {q : Queue K} (h : Placing sources keys q) {k : K} :
    k ∈ q.ready ↔ k ∈ keys ∧ k ∉ q.order ∧ ∀ s ∈ sources k, s ∈ q.order := by
  constructor
  · intro hready
    have hk := h.known k (List.mem_append_right _ hready)
    have hnot : k ∉ q.order := by
      intro horder
      exact (List.nodup_append.mp h.nodup).2.2 k horder k hready rfl
    exact ⟨hk, hnot, (h.ready k hk hnot).mp hready⟩
  · rintro ⟨hk, hnot, hall⟩
    exact (h.ready k hk hnot).mpr hall

end Left

section Ordered

variable {r : K → K → Prop} [DecidableRel r] [Std.Total r] [IsTrans K r]
  {sources sources' : K → List K} {keys keys' : List K} {q : Queue K}

omit [DecidableEq K] in
/-- Sorting depends only on which keys there are when no two of them rank alike. -/
theorem insertionSort_perm {l l' : List K}
    (hanti : ∀ a ∈ l, ∀ b ∈ l, r a b → r b a → a = b) (hperm : l.Perm l') :
    l.insertionSort r = l'.insertionSort r := by
  have hsorted := (List.perm_insertionSort r l).trans
    (hperm.trans (List.perm_insertionSort r l').symm)
  refine hsorted.eq_of_pairwise ?_ (List.pairwise_insertionSort r l)
    (List.pairwise_insertionSort r l')
  intro a b ha hb
  exact hanti a ((List.mem_insertionSort r).mp ha) b
    ((List.mem_insertionSort r).mp (hsorted.mem_iff.mpr hb))

omit [DecidableEq K] in
theorem head?_insertionSort_iff {l : List K}
    (hanti : ∀ a ∈ l, ∀ b ∈ l, r a b → r b a → a = b) {a : K} :
    (l.insertionSort r).head? = some a ↔ a ∈ l ∧ ∀ b ∈ l, r a b := by
  have hordered := List.pairwise_insertionSort r l
  have hmem (b : K) : b ∈ l.insertionSort r ↔ b ∈ l := List.mem_insertionSort r
  cases hl : l.insertionSort r with
  | nil => simp [← hmem, hl]
  | cons least rest =>
    rw [hl] at hordered
    have hleast : ∀ b ∈ l, r least b := by
      intro b hb
      rcases List.mem_cons.mp (hl ▸ (hmem b).mpr hb) with rfl | hrest
      · exact (Std.Total.total b b).elim id id
      · exact List.rel_of_pairwise_cons hordered hrest
    have hheld : least ∈ l := (hmem least).mp (hl ▸ List.mem_cons_self)
    rw [List.head?_cons, Option.some.injEq]
    constructor
    · rintro rfl
      exact ⟨hheld, hleast⟩
    · rintro ⟨ha, hle⟩
      exact hanti least hheld a ha (hleast a ha) (hle least hheld)

theorem foldl_relax_ordered (placed : K) (ks : List K) (h : q.ready.Pairwise r) :
    (ks.foldl (relax (List.orderedInsert r) placed) q).ready.Pairwise r := by
  induction ks generalizing q with
  | nil => exact h
  | cons k rest ih =>
    refine ih ?_
    unfold relax
    split_ifs
    · exact h.orderedInsert k q.ready
    · exact h

omit [DecidableEq K] in
theorem start_ordered : (start (List.orderedInsert r) sources keys).ready.Pairwise r := by
  unfold start
  induction keys.filter (fun k => sources k = []) with
  | nil => exact List.Pairwise.nil
  | cons k rest ih => exact ih.orderedInsert k _

variable (hanti : ∀ a ∈ keys, ∀ b ∈ keys, r a b → r b a → a = b)
  (hkeys : keys.Nodup) (hkeys' : keys'.Nodup) (hsame : ∀ k, k ∈ keys' ↔ k ∈ keys)
  (hsources : ∀ k ∈ keys, ∀ s, s ∈ sources' k ↔ s ∈ sources k)
include hanti hsame hsources

omit [DecidableRel r] [Std.Total r] [IsTrans K r] in
/-- Two sorts that have placed the same keys have the same keys ready. -/
theorem Placing.ready_eq {q' : Queue K} (h : Placing sources keys q)
    (h' : Placing sources' keys' q') (horder : q'.order = q.order) (hready : q.ready.Pairwise r)
    (hready' : q'.ready.Pairwise r) : q'.ready = q.ready := by
  have hmem : ∀ k, k ∈ q'.ready ↔ k ∈ q.ready := by
    intro k
    rw [h.mem_ready, h'.mem_ready, hsame k, horder]
    refine and_congr_right (fun hk => and_congr_right (fun _ => ?_))
    exact forall_congr' (fun s => by rw [hsources k hk s])
  have hknown : ∀ k ∈ q.ready, k ∈ keys := fun k hk => h.known k (List.mem_append_right _ hk)
  have hperm : q'.ready.Perm q.ready :=
    (List.perm_ext_iff_of_nodup (List.nodup_append.mp h'.nodup).2.1
      (List.nodup_append.mp h.nodup).2.1).mpr hmem
  refine hperm.eq_of_pairwise ?_ hready' hready
  intro a b ha hb hab hba
  exact hanti a (hknown a ((hmem a).mp ha)) b (hknown b hb) hab hba

include hkeys hkeys'

theorem drain_order_eq (turns : ℕ) {q' : Queue K} (h : Placing sources keys q)
    (h' : Placing sources' keys' q') (horder : q'.order = q.order) (hready : q.ready.Pairwise r)
    (hready' : q'.ready.Pairwise r) :
    (drain (List.orderedInsert r) sources' keys' turns q').order =
      (drain (List.orderedInsert r) sources keys turns q).order := by
  induction turns generalizing q q' with
  | zero => exact horder
  | succ turns ih =>
    have heq := h.ready_eq hanti hsame hsources h' horder hready hready'
    have hpush : ∀ k l, (List.orderedInsert r k l).Perm (k :: l) := List.perm_orderedInsert r
    cases hq : q.ready with
    | nil => simpa [drain, hq, heq.trans hq] using horder
    | cons placed rest =>
      obtain ⟨hnext, hplaced⟩ := h.place hpush hkeys hq
      obtain ⟨hnext', hplaced'⟩ := h'.place hpush hkeys' (heq.trans hq)
      have hrest : rest.Pairwise r := by
        rw [hq] at hready
        exact hready.of_cons
      simp only [drain, hq, heq.trans hq]
      exact ih hnext hnext' (by rw [hplaced, hplaced', horder])
        (foldl_relax_ordered placed _ hrest) (foldl_relax_ordered placed _ hrest)

/-- The order does not depend on how the keys and their sources are listed. -/
theorem sort_eq : sort (List.orderedInsert r) sources' keys' =
    sort (List.orderedInsert r) sources keys := by
  have hlength : keys'.length = keys.length :=
    ((List.perm_ext_iff_of_nodup hkeys' hkeys).mpr hsame).length_eq
  have hpush : ∀ k l, (List.orderedInsert r k l).Perm (k :: l) := List.perm_orderedInsert r
  unfold sort
  rw [hlength]
  exact drain_order_eq hanti hkeys hkeys' hsame hsources keys.length (placing_start hpush hkeys)
    (placing_start hpush hkeys') rfl start_ordered start_ordered

end Ordered

end Grafy.TopologicalSort
