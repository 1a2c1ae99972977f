import Mathlib.Data.List.Chain

/-!
Closed walks of a relation. A walk that comes back to where it has been closes
around the part since then, and the elements of a closed walk are related to
themselves through the others. No accessible element is.
-/
namespace Grafy.ClosedWalks

variable {K : Type*} {r : K → K → Prop} {path : List K} {current : K}

/-- Each element is related to the next, and the last to the first. -/
def ClosedWalk (r : K → K → Prop) (walk : List K) : Prop :=
  ∃ first rest, walk = first :: rest ∧ (walk ++ [first]).IsChain r

theorem isChain_snoc {next : K} (h : (path ++ [current]).IsChain r) (hnext : r current next) :
    (path ++ [current] ++ [next]).IsChain r := by
  refine List.isChain_append.mpr ⟨h, List.isChain_singleton next, ?_⟩
  intro last hlast first hfirst
  obtain rfl : current = last := by simpa using hlast
  obtain rfl : next = first := by simpa using hfirst
  exact hnext

theorem nodup_snoc (h : path.Nodup) (hnew : current ∉ path) : (path ++ [current]).Nodup := by
  refine List.nodup_append.mpr ⟨h, by simp, ?_⟩
  rintro a ha b hb rfl
  obtain rfl := List.mem_singleton.mp hb
  exact hnew ha

/-- A walk that arrives where it has been before closes there. -/
theorem closedWalk_of_seen [DecidableEq K] (hseen : current ∈ path)
    (h : (path ++ [current]).IsChain r) : ∃ rest,
      path.drop (path.idxOf current) = current :: rest ∧
        (path.drop (path.idxOf current) ++ [current]).IsChain r := by
  have hidx := List.idxOf_lt_length_of_mem hseen
  refine ⟨path.drop (path.idxOf current + 1), ?_, ?_⟩
  · rw [List.drop_eq_getElem_cons hidx, List.getElem_idxOf hidx]
  · rw [← List.drop_append_of_le_length hidx.le]
    exact h.drop _

theorem transGen_of_isChain {first last : K} (rest : List K)
    (h : (first :: (rest ++ [last])).IsChain r) : Relation.TransGen r first last := by
  induction rest generalizing first with
  | nil =>
    simp only [List.nil_append, List.isChain_cons_cons] at h
    exact .single h.1
  | cons next rest ih =>
    simp only [List.cons_append, List.isChain_cons_cons] at h
    exact .head h.1 (ih h.2)

theorem ClosedWalk.transGen {walk : List K} (h : ClosedWalk r walk) :
    ∃ k, Relation.TransGen r k k := by
  obtain ⟨first, rest, rfl, hchain⟩ := h
  exact ⟨first, transGen_of_isChain rest hchain⟩

theorem not_transGen_of_acc {k : K} (h : Acc r k) : ¬ Relation.TransGen r k k := by
  have hbelow := h.transGen
  clear h
  induction hbelow with
  | intro k _ ih =>
    intro hcycle
    exact ih k hcycle hcycle

end Grafy.ClosedWalks
