import Mathlib.Data.List.Nodup

/-!
A worklist over a finite set of nodes. Names are taken from a stack; a name that
is new and stands for a node is kept with what was found there, and the names it
leads to are pushed. Whatever the order and however the nodes lead back to each
other, the loop ends, and it keeps exactly the nodes reached from the first name.
-/
namespace Grafy.Worklist

variable {A V E : Type*} [DecidableEq A]

/-- The nodes among the names that were not seen. -/
def unseen (nodes seen : List A) : ℕ := (nodes.filter (fun a => a ∉ seen)).length

theorem unseen_cons_lt {nodes seen : List A} {a : A} (hnode : a ∈ nodes) (hnew : a ∉ seen) :
    unseen nodes (a :: seen) < unseen nodes seen := by
  have hfilter : nodes.filter (fun b => b ∉ a :: seen) =
      (nodes.filter (fun b => b ∉ seen)).filter (fun b => b ≠ a) := by
    rw [List.filter_filter]
    refine List.filter_congr ?_
    intro b _
    simp only [List.mem_cons, not_or, ne_eq, decide_not, Bool.decide_and]
  unfold unseen
  rw [hfilter]
  refine List.length_filter_lt_length_iff_exists.mpr ⟨a, ?_, by simp⟩
  exact List.mem_filter.mpr ⟨hnode, by simpa using hnew⟩

theorem unseen_cons_le (nodes seen : List A) (a : A) :
    unseen nodes (a :: seen) ≤ unseen nodes seen := by
  unfold unseen
  rw [← List.countP_eq_length_filter, ← List.countP_eq_length_filter]
  refine List.countP_mono_left ?_
  intro b _ hb
  simp only [List.mem_cons, not_or, decide_eq_true_eq] at hb ⊢
  exact hb.2

/-- What stands under a name: an error, no node, or what is found at the node and the names
it leads to, the one to look at first in front. -/
abbrev Expand (A V E : Type*) := A → Except E (Option (V × List A))

variable (expand : Expand A V E) {nodes : List A}
  (hnodes : ∀ a found, expand a = .ok (some found) → a ∈ nodes)

/-- The loop: the stack, the names seen, and the nodes found so far. -/
def search (hnodes : ∀ a found, expand a = .ok (some found) → a ∈ nodes) (seen : List A)
    (kept : List (A × V)) : List A → Except E (List (A × V))
  | [] => .ok kept
  | a :: stack =>
    if _hseen : a ∈ seen then search hnodes seen kept stack
    else
      match _hexpand : expand a with
      | .error e => .error e
      | .ok none => search hnodes (a :: seen) kept stack
      | .ok (some (v, next)) => search hnodes (a :: seen) (kept ++ [(a, v)]) (next ++ stack)
termination_by stack => (unseen nodes seen, stack.length)
decreasing_by
  · exact Prod.Lex.right _ (Nat.lt_succ_self _)
  · rcases Nat.lt_or_ge (unseen nodes (a :: seen)) (unseen nodes seen) with h | h
    · exact Prod.Lex.left _ _ h
    · have heq := Nat.le_antisymm (unseen_cons_le nodes seen a) h
      rw [heq]
      exact Prod.Lex.right _ (Nat.lt_succ_self _)
  · exact Prod.Lex.left _ _ (unseen_cons_lt (hnodes a _ _hexpand) _hseen)

variable {expand}

/-- The search looks at nothing but the names it is led to. -/
theorem search_congr {expand' : Expand A V E} {nodes' : List A}
    {hnodes' : ∀ a found, expand' a = .ok (some found) → a ∈ nodes'} {names : List A}
    (hsame : ∀ a ∈ names, expand' a = expand a)
    (hnext : ∀ a ∈ names, ∀ v next, expand a = .ok (some (v, next)) → next ⊆ names)
    {seen : List A} {kept : List (A × V)} {stack : List A} (hstack : stack ⊆ names) :
    search expand' hnodes' seen kept stack = search expand hnodes seen kept stack := by
  fun_induction search expand hnodes seen kept stack with
  | case1 seen kept => rw [search]
  | case2 seen kept a stack hseen ih =>
    rw [search, dif_pos hseen]
    exact ih (List.cons_subset.mp hstack).2
  | case3 seen kept a stack hseen e hexpand =>
    obtain ⟨ha, -⟩ := List.cons_subset.mp hstack
    rw [search, dif_neg hseen]
    split <;> simp_all
  | case4 seen kept a stack hseen hexpand ih =>
    obtain ⟨ha, hrest⟩ := List.cons_subset.mp hstack
    rw [search, dif_neg hseen, ← ih hrest]
    split <;> simp_all
  | case5 seen kept a stack hseen v next hexpand ih =>
    obtain ⟨ha, hrest⟩ := List.cons_subset.mp hstack
    rw [search, dif_neg hseen, ← ih (List.append_subset.mpr ⟨hnext a ha v next hexpand, hrest⟩)]
    split <;> simp_all

/-- The nodes reached from a name. -/
inductive Reached (expand : Expand A V E) (start : A) : A → Prop
  | start {found} : expand start = .ok (some found) → Reached expand start start
  | next {a b v next found} : Reached expand start a → expand a = .ok (some (v, next)) →
      b ∈ next → expand b = .ok (some found) → Reached expand start b

/-- What the loop keeps: every name seen is a kept node or none, and the kept nodes were
reached and lead to names that are seen or on the stack. -/
structure Searched (expand : Expand A V E) (start : A) (seen : List A) (kept : List (A × V))
    (stack : List A) : Prop where
  covered : start ∈ seen ∨ start ∈ stack
  nodes : ∀ a ∈ seen, ∀ v next, expand a = .ok (some (v, next)) → (a, v) ∈ kept
  reached : ∀ a v, (a, v) ∈ kept → Reached expand start a ∧ ∃ next, expand a = .ok (some (v, next))
  leads : ∀ a ∈ seen, ∀ v next, expand a = .ok (some (v, next)) → ∀ b ∈ next, b ∈ seen ∨ b ∈ stack
  pushed : ∀ b ∈ stack, ∀ found, expand b = .ok (some found) → Reached expand start b
  keys : ∀ a ∈ kept.map Prod.fst, a ∈ seen
  nodup : (kept.map Prod.fst).Nodup

omit [DecidableEq A] in
theorem searched_start (start : A) : Searched expand start [] [] [start] := by
  refine ⟨.inr (List.mem_singleton_self _), nofun, nofun, nofun, ?_, nofun, List.nodup_nil⟩
  intro b hb found hfound
  rw [List.mem_singleton.mp hb] at hfound ⊢
  exact .start hfound

omit [DecidableEq A] in
/-- The name on top of the stack is seen next. -/
theorem popped {a b : A} {seen seen' stack stack' : List A} (hseen : seen ⊆ seen')
    (ha : a ∈ seen') (hstack : stack ⊆ stack') (h : b ∈ seen ∨ b ∈ a :: stack) :
    b ∈ seen' ∨ b ∈ stack' := by
  rcases h with hold | hold
  · exact .inl (hseen hold)
  · rcases List.mem_cons.mp hold with rfl | hold
    · exact .inl ha
    · exact .inr (hstack hold)

/-- A search that ends kept exactly the nodes reached, each with what was found there. -/
theorem mem_search {start : A} {seen : List A} {kept : List (A × V)} {stack : List A}
    {found : List (A × V)} (h : Searched expand start seen kept stack)
    (hsearch : search expand hnodes seen kept stack = .ok found) :
    (∀ a, a ∈ found.map Prod.fst ↔ Reached expand start a) ∧
      (∀ a v, (a, v) ∈ found → ∃ next, expand a = .ok (some (v, next))) ∧
      (found.map Prod.fst).Nodup := by
  fun_induction search expand hnodes seen kept stack with
  | case1 seen kept =>
    cases hsearch
    have hcomplete : ∀ a, Reached expand start a → a ∈ seen := by
      intro a hreached
      induction hreached with
      | start _ => exact h.covered.resolve_right (by simp)
      | next _ hexpand hnext _ ih =>
        exact (h.leads _ ih _ _ hexpand _ hnext).resolve_right (by simp)
    refine ⟨?_, fun a v hmem => (h.reached a v hmem).2, h.nodup⟩
    intro a
    constructor
    · intro hmem
      obtain ⟨⟨b, v⟩, hkept, rfl⟩ := List.mem_map.mp hmem
      exact (h.reached b v hkept).1
    · intro hreached
      have hseen := hcomplete a hreached
      have hnode : ∃ v next, expand a = .ok (some (v, next)) := by
        cases hreached with
        | start hexpand | next _ _ _ hexpand => exact ⟨_, _, hexpand⟩
      obtain ⟨v, next, hexpand⟩ := hnode
      exact List.mem_map.mpr ⟨(a, v), h.nodes a hseen v next hexpand, rfl⟩
  | case2 seen kept a stack hseen ih =>
    refine ih ⟨?_, h.nodes, h.reached, ?_, ?_, h.keys, h.nodup⟩ hsearch
    · exact popped (fun _ hb => hb) hseen (fun _ hb => hb) h.covered
    · intro b hb v next hexpand c hc
      exact popped (fun _ hb => hb) hseen (fun _ hb => hb) (h.leads b hb v next hexpand c hc)
    · intro b hb
      exact h.pushed b (List.mem_cons_of_mem _ hb)
  | case3 seen kept a stack hseen e hexpand => cases hsearch
  | case4 seen kept a stack hseen hexpand ih =>
    refine ih ⟨?_, ?_, h.reached, ?_, ?_, ?_, h.nodup⟩ hsearch
    · exact popped (List.subset_cons_self _ _) List.mem_cons_self (fun _ hb => hb) h.covered
    · intro b hb v next hnext
      rcases List.mem_cons.mp hb with rfl | hb
      · rw [hexpand] at hnext
        cases hnext
      · exact h.nodes b hb v next hnext
    · intro b hb v next hnext c hc
      rcases List.mem_cons.mp hb with rfl | hb
      · rw [hexpand] at hnext
        cases hnext
      · exact popped (List.subset_cons_self _ _) List.mem_cons_self (fun _ hb => hb)
          (h.leads b hb v next hnext c hc)
    · intro b hb
      exact h.pushed b (List.mem_cons_of_mem _ hb)
    · intro b hb
      exact List.mem_cons_of_mem _ (h.keys b hb)
  | case5 seen kept a stack hseen v next hexpand ih =>
    have hreached := h.pushed a List.mem_cons_self _ hexpand
    refine ih ⟨?_, ?_, ?_, ?_, ?_, ?_, ?_⟩ hsearch
    · exact popped (List.subset_cons_self _ _) List.mem_cons_self (List.subset_append_right _ _)
        h.covered
    · intro b hb w others hnext
      rcases List.mem_cons.mp hb with rfl | hb
      · rw [hexpand] at hnext
        cases hnext
        exact List.mem_append_right _ (List.mem_singleton_self _)
      · exact List.mem_append_left _ (h.nodes b hb w others hnext)
    · intro b w hmem
      rcases List.mem_append.mp hmem with hmem | hmem
      · exact h.reached b w hmem
      · cases List.mem_singleton.mp hmem
        exact ⟨hreached, next, hexpand⟩
    · intro b hb w others hnext c hc
      rcases List.mem_cons.mp hb with rfl | hb
      · rw [hexpand] at hnext
        cases hnext
        exact .inr (List.mem_append_left _ hc)
      · exact popped (List.subset_cons_self _ _) List.mem_cons_self (List.subset_append_right _ _)
          (h.leads b hb w others hnext c hc)
    · intro b hb found' hfound
      rcases List.mem_append.mp hb with hb | hb
      · exact .next hreached hexpand hb hfound
      · exact h.pushed b (List.mem_cons_of_mem _ hb) found' hfound
    · intro b hb
      rw [List.map_append] at hb
      rcases List.mem_append.mp hb with hb | hb
      · exact List.mem_cons_of_mem _ (h.keys b hb)
      · rw [List.mem_singleton.mp hb]
        exact List.mem_cons_self
    · rw [List.map_append]
      refine List.nodup_append.mpr ⟨h.nodup, List.nodup_singleton _, ?_⟩
      rintro b hb c hc rfl
      rw [List.mem_singleton.mp hc] at hb
      exact hseen (h.keys a hb)

/-- A search over names none of which is an error returns. -/
theorem exists_search (hexpand : ∀ a e, expand a ≠ .error e) (seen : List A) (kept : List (A × V))
    (stack : List A) : ∃ found, search expand hnodes seen kept stack = .ok found := by
  fun_induction search expand hnodes seen kept stack with
  | case1 seen kept => exact ⟨kept, rfl⟩
  | case2 seen kept a stack hseen ih => exact ih
  | case3 seen kept a stack hseen e herror => exact absurd herror (hexpand a e)
  | case4 seen kept a stack hseen hnone ih => exact ih
  | case5 seen kept a stack hseen v next hsome ih => exact ih

end Grafy.Worklist
