import Mathlib.Data.List.Basic

/-!
Walks over labelled edges that come to no vertex twice, nor to one that they are told to
avoid. A walk grows at its end by an edge to a vertex that it has not come to.
-/
namespace Grafy.SimpleWalks

variable {V E : Type*} (source target : E → V)

/-- A walk over a path of edges that comes to no vertex of a list, nor to one twice. -/
inductive Walk : List V → V → List E → V → Prop
  | nil (seen : List V) (a : V) : Walk seen a [] a
  | cons {seen : List V} {e : E} {path : List E} {b : V} (hnew : target e ∉ seen)
      (h : Walk (target e :: seen) (target e) path b) : Walk seen (source e) (e :: path) b

variable {source target} {seen : List V} {a b : V} {e : E} {path : List E}

theorem walk_nil_iff : Walk source target seen a [] b ↔ a = b := by
  constructor
  · rintro ⟨⟩
    rfl
  · rintro rfl
    exact .nil seen a

theorem walk_cons_iff : Walk source target seen a (e :: path) b ↔
    source e = a ∧ target e ∉ seen ∧ Walk source target (target e :: seen) (target e) path b := by
  constructor
  · rintro ⟨⟩
    exact ⟨rfl, ‹_›, ‹_›⟩
  · rintro ⟨rfl, hnew, h⟩
    exact .cons hnew h

theorem Walk.snoc (h : Walk source target seen a path b) (hsource : source e = b)
    (hseen : target e ∉ seen) (hpath : target e ∉ path.map target) :
    Walk source target seen a (path ++ [e]) (target e) := by
  induction h with
  | nil seen a =>
    subst hsource
    exact .cons hseen (.nil _ _)
  | @cons seen f path b hnew _ ih =>
    rw [List.map_cons, List.mem_cons, not_or] at hpath
    refine .cons hnew (ih hsource ?_ hpath.2)
    rw [List.mem_cons, not_or]
    exact ⟨hpath.1, hseen⟩

/-- Where a walk ends is read off its last edge. -/
theorem Walk.end_eq (h : Walk source target seen a path b) :
    b = (path.getLast?.map target).getD a := by
  induction h with
  | nil => rfl
  | @cons seen f path b _ _ ih =>
    rw [ih]
    cases path with
    | nil => rfl
    | cons g rest =>
      rw [List.getLast?_cons_cons, List.getLast?_eq_some_getLast (List.cons_ne_nil g rest)]
      rfl

end Grafy.SimpleWalks
