import Mathlib.Data.List.Perm.Basic

/-!
Edits of a list: some elements are dropped, the others changed in place, and
new ones appended. Two edits that do not reach for each other's elements lead
to the same list in either order, up to the order of what they append and to
how far their changes of one element commute.
-/
namespace Grafy.Edits

variable {A : Type*} {l : List A}

structure Edit (A : Type*) where
  keep : A → Bool
  change : A → A
  added : List A

def Edit.apply (e : Edit A) (l : List A) : List A := (l.filter e.keep).map e.change ++ e.added

/-- Nothing is touched. -/
def Edit.skip : Edit A := ⟨fun _ => true, id, []⟩

variable {e : Edit A} {R : A → A → Prop}

theorem Edit.apply_eq_self (hkeep : ∀ a ∈ l, e.keep a = true) (hchange : ∀ a ∈ l, e.change a = a)
    (hadded : e.added = []) : e.apply l = l := by
  unfold Edit.apply
  rw [List.filter_eq_self.mpr hkeep, hadded, List.append_nil]
  exact (List.map_congr_left hchange).trans (List.map_id l)

@[simp] theorem Edit.skip_apply (l : List A) : Edit.skip.apply l = l :=
  Edit.apply_eq_self (fun _ _ => rfl) (fun _ _ => rfl) rfl

/-- The same elements up to the relation, in some order. -/
def Reordered (R : A → A → Prop) (l l' : List A) : Prop := ∃ m, l.Perm m ∧ List.Forall₂ R m l'

theorem Reordered.refl (hrefl : ∀ a, R a a) (l : List A) : Reordered R l l :=
  ⟨l, List.Perm.refl l, List.forall₂_same.mpr (fun a _ => hrefl a)⟩

theorem reordered_eq {l' : List A} : Reordered Eq l l' ↔ l.Perm l' := by
  constructor
  · rintro ⟨m, hperm, hsame⟩
    obtain rfl : m = l' := by rwa [List.forall₂_eq_eq_eq] at hsame
    exact hperm
  · intro hperm
    exact ⟨l', hperm, List.forall₂_same.mpr (fun _ _ => rfl)⟩

/-- The second edit decides over an element as before the first one changed
it, and lets the first one's new elements be. -/
structure Edit.Passes (e f : Edit A) (l : List A) : Prop where
  kept : ∀ a ∈ l, e.keep a → f.keep (e.change a) = f.keep a
  added : ∀ a ∈ e.added, f.keep a = true ∧ f.change a = a

variable {f : Edit A}

theorem Edit.apply_apply (h : e.Passes f l) :
    f.apply (e.apply l) =
      (l.filter (fun a => e.keep a && f.keep a)).map (fun a => f.change (e.change a)) ++
        (e.added ++ f.added) := by
  have hnew : (e.added.filter f.keep).map f.change = e.added := by
    rw [List.filter_eq_self.mpr (fun a ha => (h.added a ha).1)]
    exact (List.map_congr_left (fun a ha => (h.added a ha).2)).trans (List.map_id _)
  have hold : ((l.filter e.keep).map e.change).filter f.keep =
      (l.filter (fun a => e.keep a && f.keep a)).map e.change := by
    rw [List.filter_map, List.filter_filter]
    congr 1
    apply List.filter_congr
    intro a ha
    cases hkeep : e.keep a with
    | false => simp
    | true => simp [h.kept a ha hkeep]
  unfold Edit.apply
  rw [List.filter_append, List.map_append, hnew, hold, List.map_map, List.append_assoc]
  rfl

theorem filter_and_comm (p q : A → Bool) (l : List A) :
    l.filter (fun a => p a && q a) = l.filter (fun a => q a && p a) := by
  apply List.filter_congr
  intro a _
  exact Bool.and_comm ..

theorem Edit.reordered (hrefl : ∀ a, R a a) (h : e.Passes f l) (h' : f.Passes e l)
    (hchange : ∀ a ∈ l, R (f.change (e.change a)) (e.change (f.change a))) :
    Reordered R (f.apply (e.apply l)) (e.apply (f.apply l)) := by
  rw [Edit.apply_apply h, Edit.apply_apply h']
  refine ⟨_, List.Perm.append_left _ List.perm_append_comm, ?_⟩
  rw [filter_and_comm f.keep]
  refine List.rel_append ?_ (List.forall₂_same.mpr (fun a _ => hrefl a))
  rw [List.forall₂_map_left_iff, List.forall₂_map_right_iff, List.forall₂_same]
  exact fun a ha => hchange a (List.mem_filter.mp ha).1

theorem Edit.perm (h : e.Passes f l) (h' : f.Passes e l)
    (hchange : ∀ a ∈ l, f.change (e.change a) = e.change (f.change a)) :
    (f.apply (e.apply l)).Perm (e.apply (f.apply l)) :=
  reordered_eq.mp (Edit.reordered (fun _ => rfl) h h' hchange)

/-- Edits that append nothing commute as they are. -/
theorem Edit.comm (he : e.added = []) (hf : f.added = []) (h : e.Passes f l) (h' : f.Passes e l)
    (hchange : ∀ a ∈ l, f.change (e.change a) = e.change (f.change a)) :
    f.apply (e.apply l) = e.apply (f.apply l) := by
  rw [Edit.apply_apply h, Edit.apply_apply h', he, hf]
  congr 1
  rw [filter_and_comm]
  apply List.map_congr_left
  exact fun a ha => hchange a (List.mem_filter.mp ha).1

end Grafy.Edits
