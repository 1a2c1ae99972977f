import Mathlib.Data.List.Sort
import Mathlib.Data.List.Dedup

/-!
Lists aligned by a relation, position by position, and lists gathered from a
few of the members of a longer one. Aligned lists whose partners compare alike
stay aligned when both are sorted.
-/
namespace Grafy.Alignment

variable {A B C : Type*} {R : A → B → Prop} {l : List A} {r : List B}

section

variable (h : List.Forall₂ R l r)
include h

theorem exists_right {a : A} (ha : a ∈ l) : ∃ b ∈ r, R a b := by
  induction h with
  | nil => simp at ha
  | cons hab _ ih =>
    rcases List.mem_cons.mp ha with rfl | ha
    · exact ⟨_, List.mem_cons_self .., hab⟩
    · obtain ⟨b, hb, hrel⟩ := ih ha
      exact ⟨b, List.mem_cons_of_mem _ hb, hrel⟩

theorem exists_left {b : B} (hb : b ∈ r) : ∃ a ∈ l, R a b := exists_right h.flip hb

theorem with_mem : List.Forall₂ (fun a b => a ∈ l ∧ b ∈ r ∧ R a b) l r := by
  induction h with
  | nil => exact .nil
  | cons hab hrest ih =>
    refine .cons ⟨List.mem_cons_self .., List.mem_cons_self .., hab⟩ (ih.imp ?_)
    rintro a b ⟨ha, hb, hrel⟩
    exact ⟨List.mem_cons_of_mem _ ha, List.mem_cons_of_mem _ hb, hrel⟩

/-- What partners have in common is read off alike from both lists. -/
theorem map_eq {f : A → C} {g : B → C} (hfg : ∀ a b, R a b → f a = g b) : l.map f = r.map g := by
  induction h with
  | nil => rfl
  | cons hab _ ih => rw [List.map_cons, List.map_cons, hfg _ _ hab, ih]

theorem any_eq {p : A → Bool} {q : B → Bool} (hpq : ∀ a b, R a b → p a = q b) :
    l.any p = r.any q := by
  induction h with
  | nil => rfl
  | cons hab _ ih => rw [List.any_cons, List.any_cons, hpq _ _ hab, ih]

/-- A relation between any two members carries over to their partners. -/
theorem pairwise {P : A → A → Prop} {Q : B → B → Prop}
    (hPQ : ∀ a b a' b', R a b → R a' b' → P a a' → Q b b') (hl : l.Pairwise P) : r.Pairwise Q := by
  induction h with
  | nil => exact .nil
  | cons hab hrest ih =>
    obtain ⟨hfirst, hl⟩ := List.pairwise_cons.mp hl
    refine List.pairwise_cons.mpr ⟨?_, ih hl⟩
    intro b' hb'
    obtain ⟨a', ha', hrel⟩ := exists_left hrest hb'
    exact hPQ _ _ _ _ hab hrel (hfirst a' ha')

end

section Sorted

variable {r₁ : A → A → Prop} {r₂ : B → B → Prop} [DecidableRel r₁] [DecidableRel r₂]

theorem orderedInsert (hcompare : ∀ a b a' b', R a b → R a' b' → (r₁ a a' ↔ r₂ b b'))
    {a : A} {b : B} (hab : R a b) (h : List.Forall₂ R l r) :
    List.Forall₂ R (l.orderedInsert r₁ a) (r.orderedInsert r₂ b) := by
  induction h with
  | nil => exact .cons hab .nil
  | cons hab' hrest ih =>
    rename_i a' b' l' r'
    by_cases hle : r₁ a a'
    · have hle' := (hcompare a b a' b' hab hab').mp hle
      simpa [List.orderedInsert, hle, hle'] using ⟨hab, hab', hrest⟩
    · have hle' : ¬ r₂ b b' := fun h => hle ((hcompare a b a' b' hab hab').mpr h)
      simpa [List.orderedInsert, hle, hle'] using ⟨hab', ih⟩

theorem insertionSort (hcompare : ∀ a b a' b', R a b → R a' b' → (r₁ a a' ↔ r₂ b b'))
    (h : List.Forall₂ R l r) : List.Forall₂ R (l.insertionSort r₁) (r.insertionSort r₂) := by
  induction h with
  | nil => exact .nil
  | cons hab _ ih => exact orderedInsert hcompare hab ih

end Sorted

/-- A list gathered from members that mostly give nothing is gathered from
the members that give something. -/
theorem flatMap_of_sublist {f : A → List C} {few : List A} (hsub : few.Sublist l) (hnodup : l.Nodup)
    (hrest : ∀ a ∈ l, a ∉ few → f a = []) : l.flatMap f = few.flatMap f := by
  induction hsub with
  | slnil => rfl
  | cons a _ ih =>
    rename_i few' l' hsub'
    obtain ⟨hnotin, hnodup'⟩ := List.nodup_cons.mp hnodup
    have ha : f a = [] := hrest a (List.mem_cons_self ..) (fun hmem => hnotin (hsub'.subset hmem))
    rw [List.flatMap_cons, ha, List.nil_append]
    exact ih hnodup' (fun b hb hnot => hrest b (List.mem_cons_of_mem _ hb) hnot)
  | cons_cons a _ ih =>
    rename_i few' l' hsub'
    obtain ⟨hnotin, hnodup'⟩ := List.nodup_cons.mp hnodup
    rw [List.flatMap_cons, List.flatMap_cons]
    congr 1
    refine ih hnodup' ?_
    intro b hb hnot
    refine hrest b (List.mem_cons_of_mem _ hb) ?_
    intro hmem
    rcases List.mem_cons.mp hmem with rfl | hmem
    · exact hnotin hb
    · exact hnot hmem

end Grafy.Alignment
