import Grafy.OrderedDict
import Mathlib.Data.List.Induction

/-!
Elements gathered by a key, in the order in which the keys are first met. Every
group holds the elements of its key in their order, and the groups together
hold every element once.
-/
namespace Grafy.Grouping

open OrderedDict

variable {A K : Type*} [DecidableEq K]

/-- One more element, at the end of its group. -/
def put (key : A → K) (groups : Dict K (List A)) (a : A) : Dict K (List A) :=
  groups.set (key a) ((groups.get? (key a)).getD [] ++ [a])

def group (key : A → K) (l : List A) : Dict K (List A) := l.foldl (put key) []

theorem keys_put_nodup (key : A → K) {groups : Dict K (List A)} (h : groups.keys.Nodup) (a : A) :
    (put key groups a).keys.Nodup := Dict.keys_set_nodup h _ _

theorem keys_group_nodup (key : A → K) (l : List A) : (group key l).keys.Nodup := by
  unfold group
  induction l using List.reverseRecOn with
  | nil => exact List.nodup_nil
  | append_singleton l a ih =>
    rw [List.foldl_append]
    exact keys_put_nodup key ih a

/-- A key has a group as soon as an element has it. -/
theorem get?_group (key : A → K) (l : List A) (k : K) :
    (group key l).get? k =
      if l.filter (fun a => key a = k) = [] then none
        else some (l.filter (fun a => key a = k)) := by
  unfold group
  induction l using List.reverseRecOn with
  | nil => rfl
  | append_singleton l a ih =>
    rw [List.foldl_append, List.foldl_cons, List.foldl_nil, put, List.filter_append]
    by_cases hk : key a = k
    · have hgroup : ((List.foldl (put key) [] l).get? k).getD [] =
          l.filter (fun b => key b = k) := by
        rw [ih]
        split_ifs with hempty
        · rw [hempty]
          rfl
        · rfl
      rw [hk, Dict.get?_set_self, hgroup, if_neg]
      · simp [hk]
      · simp [hk]
    · rw [Dict.get?_set_ne _ _ (Ne.symm hk), ih]
      simp [hk]

theorem mem_group {key : A → K} {l : List A} {entry : K × List A} (h : entry ∈ group key l) :
    entry.2 = l.filter (fun a => key a = entry.1) ∧ entry.2 ≠ [] := by
  obtain ⟨k, elements⟩ := entry
  have hget := Dict.get?_of_mem (keys_group_nodup key l) h
  rw [get?_group] at hget
  split_ifs at hget with hempty
  cases hget
  exact ⟨rfl, hempty⟩

theorem flatMap_set_perm (groups : Dict K (List A)) (k : K) (a : A) :
    ((groups.set k ((groups.get? k).getD [] ++ [a])).flatMap Prod.snd).Perm
      (groups.flatMap Prod.snd ++ [a]) := by
  induction groups with
  | nil => exact List.Perm.refl [a]
  | cons entry rest ih =>
    obtain ⟨l, elements⟩ := entry
    by_cases hl : l = k
    · simp only [Dict.set, Dict.get?, if_pos hl, Option.getD_some, List.flatMap_cons]
      rw [List.append_assoc, List.append_assoc]
      exact (List.perm_append_comm).append_left elements
    · simp only [Dict.set, Dict.get?, if_neg hl, List.flatMap_cons]
      rw [List.append_assoc]
      exact ih.append_left elements

/-- The groups together are the list, in another order. -/
theorem group_perm (key : A → K) (l : List A) : ((group key l).flatMap Prod.snd).Perm l := by
  unfold group
  induction l using List.reverseRecOn with
  | nil => exact List.Perm.refl []
  | append_singleton l a ih =>
    rw [List.foldl_append]
    exact (flatMap_set_perm _ (key a) a).trans (ih.append_right [a])

end Grafy.Grouping
